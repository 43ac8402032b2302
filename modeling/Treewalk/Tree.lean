import Treewalk.Token

/-!
Syntax trees. Expressions and statements carry the tokens that messages and names need. A tree that
was read from a program is always well formed; a tree built by hand may have a gap, or a statement
where an expression belongs, or the reverse. Such a place is marked `misplaced` and is an error only
when something reaches it.
-/

namespace Treewalk

mutual

inductive Expr where
  | literal (value : Constant)
  | grouping (inner : Expr)
  | unary (op : Token) (operand : Expr)
  | binary (left : Expr) (op : Token) (right : Expr)
  | logical (left : Expr) (op : Token) (right : Expr)
  | ternary (condition yes no : Expr)
  | variable (name : Token)
  | assign (name : Token) (value : Expr)
  /-- `paren` is the opening parenthesis of the arguments. -/
  | call (callee : Expr) (paren : Token) (arguments : List Expr)
  /-- Nothing, or a statement, in the place of an expression. -/
  | misplaced (found : Option Stmt)

inductive Stmt where
  | expression (e : Expr)
  | print (e : Expr)
  | var (name : Token) (initial : Option Expr)
  | block (body : List Stmt)
  | branch (condition : Expr) (yes : Stmt) (no : Option Stmt)
  | loop (condition : Expr) (body : Stmt)
  | function (name : Token) (parameters : List Token) (body : List Stmt)
  | return (keyword : Token) (value : Option Expr)
  /-- Nothing, or an expression, in the place of a statement. -/
  | misplaced (found : Option Expr)

end

instance : Inhabited Expr := ⟨.literal .nil⟩

instance : Inhabited Stmt := ⟨.block []⟩

mutual

/-- The name of an expression's form, as messages about the tree itself give it. -/
def Expr.form : Expr → String
  | .literal _ => "Literal"
  | .grouping _ => "Grouping"
  | .unary _ _ => "Unary"
  | .binary _ _ _ => "Binary"
  | .logical _ _ _ => "Logical"
  | .ternary _ _ _ => "Ternary"
  | .variable _ => "Variable"
  | .assign _ _ => "Assign"
  | .call _ _ _ => "Call"
  | .misplaced none => "NoneType"
  | .misplaced (some s) => s.form

/-- The name of a statement's form. -/
def Stmt.form : Stmt → String
  | .expression _ => "Expression"
  | .print _ => "Print"
  | .var _ _ => "Var"
  | .block _ => "Block"
  | .branch _ _ _ => "If"
  | .loop _ _ => "While"
  | .function _ _ _ => "Function"
  | .return _ _ => "Return"
  | .misplaced none => "NoneType"
  | .misplaced (some e) => e.form

end

end Treewalk
