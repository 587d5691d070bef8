/-!
Reserved words. Every keyword is reserved: a bare word that spells one, in any letter case, is never
an identifier. A few of them may name a function all the same.
-/

set_option autoImplicit false
set_option relaxedAutoImplicit false

namespace SelectSyntax.Token

/-- The reserved words, each constructor written as the word itself. -/
inductive Keyword where
  | ALL | AND | ANY | AS | ASC | AVG | BETWEEN | BY | CASE | CAST | COLLATE | CONVERT | COUNT
  | CROSS | DEFAULT | DELETE | DESC | DISTINCT | ELSE | END | ESCAPE | EXCEPT | EXISTS | FALSE
  | FROM | FULL | GROUP | GROUPING | HAVING | IN | INNER | INSERT | INTERSECT | INTERVAL | INTO
  | IS | JOIN | LEFT | LIKE | MATCH | MAX | MIN | NATURAL | NOT | NULL | NULLIF | ON | OR | ORDER
  | OUTER | OVER | OVERLAPS | PARTIAL | RANK | RECURSIVE | RIGHT | SELECT | SET | SOME | SUM
  | THEN | TO | TRUE | UNION | UNIQUE | UNKNOWN | UPDATE | VALUES | WHEN | WHERE | WITH
  deriving DecidableEq, Repr

namespace Keyword

def all : List Keyword :=
  [
   .ALL, .AND, .ANY, .AS, .ASC, .AVG, .BETWEEN, .BY, .CASE, .CAST, .COLLATE, .CONVERT, .COUNT,
   .CROSS, .DEFAULT, .DELETE, .DESC, .DISTINCT, .ELSE, .END, .ESCAPE, .EXCEPT, .EXISTS, .FALSE,
   .FROM, .FULL, .GROUP, .GROUPING, .HAVING, .IN, .INNER, .INSERT, .INTERSECT, .INTERVAL, .INTO,
   .IS, .JOIN, .LEFT, .LIKE, .MATCH, .MAX, .MIN, .NATURAL, .NOT, .NULL, .NULLIF, .ON, .OR,
   .ORDER, .OUTER, .OVER, .OVERLAPS, .PARTIAL, .RANK, .RECURSIVE, .RIGHT, .SELECT, .SET, .SOME,
   .SUM, .THEN, .TO, .TRUE, .UNION, .UNIQUE, .UNKNOWN, .UPDATE, .VALUES, .WHEN, .WHERE, .WITH
  ]

def spelling : Keyword → String
  | .ALL => "ALL"
  | .AND => "AND"
  | .ANY => "ANY"
  | .AS => "AS"
  | .ASC => "ASC"
  | .AVG => "AVG"
  | .BETWEEN => "BETWEEN"
  | .BY => "BY"
  | .CASE => "CASE"
  | .CAST => "CAST"
  | .COLLATE => "COLLATE"
  | .CONVERT => "CONVERT"
  | .COUNT => "COUNT"
  | .CROSS => "CROSS"
  | .DEFAULT => "DEFAULT"
  | .DELETE => "DELETE"
  | .DESC => "DESC"
  | .DISTINCT => "DISTINCT"
  | .ELSE => "ELSE"
  | .END => "END"
  | .ESCAPE => "ESCAPE"
  | .EXCEPT => "EXCEPT"
  | .EXISTS => "EXISTS"
  | .FALSE => "FALSE"
  | .FROM => "FROM"
  | .FULL => "FULL"
  | .GROUP => "GROUP"
  | .GROUPING => "GROUPING"
  | .HAVING => "HAVING"
  | .IN => "IN"
  | .INNER => "INNER"
  | .INSERT => "INSERT"
  | .INTERSECT => "INTERSECT"
  | .INTERVAL => "INTERVAL"
  | .INTO => "INTO"
  | .IS => "IS"
  | .JOIN => "JOIN"
  | .LEFT => "LEFT"
  | .LIKE => "LIKE"
  | .MATCH => "MATCH"
  | .MAX => "MAX"
  | .MIN => "MIN"
  | .NATURAL => "NATURAL"
  | .NOT => "NOT"
  | .NULL => "NULL"
  | .NULLIF => "NULLIF"
  | .ON => "ON"
  | .OR => "OR"
  | .ORDER => "ORDER"
  | .OUTER => "OUTER"
  | .OVER => "OVER"
  | .OVERLAPS => "OVERLAPS"
  | .PARTIAL => "PARTIAL"
  | .RANK => "RANK"
  | .RECURSIVE => "RECURSIVE"
  | .RIGHT => "RIGHT"
  | .SELECT => "SELECT"
  | .SET => "SET"
  | .SOME => "SOME"
  | .SUM => "SUM"
  | .THEN => "THEN"
  | .TO => "TO"
  | .TRUE => "TRUE"
  | .UNION => "UNION"
  | .UNIQUE => "UNIQUE"
  | .UNKNOWN => "UNKNOWN"
  | .UPDATE => "UPDATE"
  | .VALUES => "VALUES"
  | .WHEN => "WHEN"
  | .WHERE => "WHERE"
  | .WITH => "WITH"

/-- The keyword that a word spells when letter case is ignored. -/
def ofChars? (word : List Char) : Option Keyword :=
  let upper := word.map Char.toUpper
  all.find? fun k => k.spelling.toList == upper

def ofText? (text : String) : Option Keyword := ofChars? text.toList

def isFunctionName : Keyword → Bool
  | .AVG | .COUNT | .GROUPING | .MAX | .MIN | .NULLIF | .RANK | .SUM => true
  | _ => false

theorem ofText?_spelling (k : Keyword) : ofText? k.spelling = some k := by cases k <;> decide

end Keyword

end SelectSyntax.Token
