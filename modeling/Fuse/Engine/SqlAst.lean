import Fuse.Core.Connector

/-!
# The SQL syntax tree

The part of the `sqlparser` tree that the translation of
`fuse-engine/src/sql_to_subquery.rs` takes apart.  Every form it does not look
into is an `other` leaf that carries its text.  Parsing and printing belong to
the parser library and are a parameter.
-/

namespace Fuse.Engine

open Foundation Fuse.Core

structure Ident where
  value : Str
  quoteStyle : Option Char := none
  deriving DecidableEq, Repr

/-- A literal.  `other` stands for hex, national, escaped and dollar-quoted
strings and for placeholders. -/
inductive Value where
  | number (text : Str) (long : Bool)
  | singleQuotedString (s : Str)
  | doubleQuotedString (s : Str)
  | boolean (b : Bool)
  | null
  | other (text : Str)
  deriving DecidableEq, Repr

inductive UnaryOperator where
  | not | minus
  | other (symbol : Str)
  deriving DecidableEq, Repr

inductive BinaryOperator where
  | and | or | eq | notEq | lt | ltEq | gt | gtEq
  | other (symbol : Str)
  deriving DecidableEq, Repr

inductive DuplicateTreatment where
  | distinct | all
  deriving DecidableEq, Repr

inductive ObjectNamePart where
  | identifier (id : Ident)
  | function (text : Str)
  deriving DecidableEq, Repr

abbrev ObjectName := List ObjectNamePart

/-- A function argument; `other` covers named and qualified-wildcard ones. -/
inductive FunctionArg (E : Type) where
  | expr (e : E)
  | wildcard
  | other (text : Str)

inductive FunctionArguments (E : Type) where
  | none
  | subquery (text : Str)
  | list (duplicateTreatment : Option DuplicateTreatment)
    (args : List (FunctionArg E))

structure Function (E : Type) where
  name : ObjectName
  args : FunctionArguments E
  window : Option Str := Option.none

inductive SqlExpr where
  | identifier (id : Ident)
  | compoundIdentifier (ids : List Ident)
  | value (v : Value)
  | unaryOp (op : UnaryOperator) (expr : SqlExpr)
  | binaryOp (left : SqlExpr) (op : BinaryOperator) (right : SqlExpr)
  | isNull (expr : SqlExpr)
  | isNotNull (expr : SqlExpr)
  | inList (expr : SqlExpr) (list : List SqlExpr) (negated : Bool)
  | between (expr : SqlExpr) (negated : Bool) (low high : SqlExpr)
  | like (negated any : Bool) (expr pattern : SqlExpr)
    (escapeChar : Option Value)
  | iLike (negated any : Bool) (expr pattern : SqlExpr)
    (escapeChar : Option Value)
  | nested (expr : SqlExpr)
  | function (f : Function SqlExpr)
  | other (text : Str)

inductive SelectItem where
  | unnamedExpr (expr : SqlExpr)
  | exprWithAlias (expr : SqlExpr) (aliasIdent : Ident)
  | wildcard
  | qualifiedWildcard (name : ObjectName)

inductive GroupByExpr where
  | expressions (exprs : List SqlExpr)
  | all

structure OrderByExpr where
  expr : SqlExpr
  asc : Option Bool

inductive OrderByKind where
  | expressions (exprs : List OrderByExpr)
  | all

inductive LimitClause where
  | limitOffset (limit offset : Option SqlExpr)
  | offsetCommaLimit (offset limit : SqlExpr)

mutual

/-- A relation of a `FROM` item; `other` covers table functions. -/
inductive TableFactor where
  | table (name : ObjectName)
  | derived (subquery : Query)
  | nestedJoin (tables : TableWithJoins)
  | other (text : Str)

inductive Join where
  | mk (relation : TableFactor) (constraint : Option SqlExpr)

inductive TableWithJoins where
  | mk (relation : TableFactor) (joins : List Join)

inductive Select where
  | mk (projection : List SelectItem) (tables : List TableWithJoins)
    (selection : Option SqlExpr)
      (groupBy : GroupByExpr) (having : Option SqlExpr)

inductive SetExpr where
  | select (s : Select)
  | setOperation (left right : SetExpr)
  | query (q : Query)
  | other (text : Str)

inductive Query where
  | withCtes (ctes : List Query) (body : SetExpr)
      (orderBy : Option OrderByKind) (limitClause : Option LimitClause)

end

/-- The `FROM` clause that names one table, of which the parts stand apart. -/
def fromTable (name : Str) : List TableWithJoins :=
  [.mk (.table ((Str.splitBy (· == '.') name).map fun part =>
    .identifier { value := part })) []]

namespace Select

def projection : Select → List SelectItem
  | mk p _ _ _ _ => p

def tables : Select → List TableWithJoins
  | mk _ t _ _ _ => t

def selection : Select → Option SqlExpr
  | mk _ _ s _ _ => s

def groupBy : Select → GroupByExpr
  | mk _ _ _ g _ => g

def having : Select → Option SqlExpr
  | mk _ _ _ _ h => h

end Select

namespace Query

abbrev mk : SetExpr → Option OrderByKind → Option LimitClause → Query :=
  withCtes []

def body : Query → SetExpr
  | withCtes _ b _ _ => b

def orderBy : Query → Option OrderByKind
  | withCtes _ _ o _ => o

def limitClause : Query → Option LimitClause
  | withCtes _ _ _ l => l

end Query

inductive Statement where
  | query (q : Query)
  | other (text : Str)

class SqlParser where
  parseSql : Str → Except Str (List Statement)
  exprToString : SqlExpr → Str
  objectNameToString : ObjectName → Str

@[reducible] def tableParser (known : List (Str × Query)) : SqlParser where
  parseSql sql := match known.lookup sql with
    | some q => .ok [.query q]
    | none => .error "unknown text"
  exprToString
    | .identifier id => id.value
    | .other text => text
    | _ => "expr"
  objectNameToString name := name.flatMap fun
    | .identifier id => id.value
    | .function text => text

end Fuse.Engine
