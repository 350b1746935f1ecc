/-
Operators and the symbols they are reflected as.

Strict and loose comparison share a symbol.  `typeof` is no entry of the unary table; it has a
node kind of its own.
-/

namespace Reify
namespace Operator

def binaryTable : List (String × String) :=
  [("=", "="), ("+", "+"), ("-", "-"), ("*", "*"), ("/", "/"), ("%", "%"), ("&&", "&&"),
    ("||", "||"), ("??", "??"), ("==", "=="), ("===", "=="), ("!=", "!="), ("!==", "!="),
    ("<", "<"), ("<=", "<="), (">", ">"), (">=", ">="), ("in", "in")]

def unaryTable : List (String × String) := [("!", "!"), ("-", "-"), ("+", "+")]

def binary? (token : String) : Option String := binaryTable.lookup token

def unary? (token : String) : Option String := unaryTable.lookup token

end Operator
end Reify
