import AriaShell.Parser.Token
/-! The syntax tree of `parser/ast.hpp`. A `std::unique_ptr` field is an `Option` where the parser
can leave it null: the statement a control-flow header governs, an `else` branch, a declaration's
initializer and a `return` value. The expression parsers return a node on every path that does
not throw, so an expression child is never null; a vector holds only the nodes pushed into it. -/
namespace AriaShell.Parser

/-- `ExprNode` and its subclasses. -/
inductive ExprNode where
  | integerLiteral (value : Int) (location : SourceLocation)
  | stringLiteral (value : List Char) (location : SourceLocation)
  | variableExpr (name : List Char) (location : SourceLocation)
  | binaryOpExpr (op : TokenType) (left right : ExprNode) (location : SourceLocation)
  | unaryOpExpr (op : TokenType) (operand : ExprNode) (location : SourceLocation)
  | callExpr (function : List Char) (arguments : List ExprNode) (location : SourceLocation)
  deriving Repr

inductive RedirectionType where
  | input | output | append
  deriving DecidableEq, Repr

structure Redirection where
  type : RedirectionType
  target : List Char
  deriving DecidableEq, Repr

/-- `CommandStmt`, as a member of a pipeline: the parser builds no other. -/
structure CommandStmt where
  executable : List Char
  arguments : List (List Char)
  redirections : List Redirection
  background : Bool
  location : SourceLocation
  deriving DecidableEq, Repr

/-- `StmtNode` and its subclasses; the field `variable` is `variableName`, `variable` being a
keyword of Lean. -/
inductive StmtNode where
  | blockStmt (statements : List StmtNode) (location : SourceLocation)
  | varDeclStmt (type name : List Char) (initializer : Option ExprNode) (location : SourceLocation)
  | assignStmt (variableName : List Char) (value : ExprNode) (location : SourceLocation)
  | ifStmt (condition : ExprNode) (thenBranch elseBranch : Option StmtNode) (location : SourceLocation)
  | whileStmt (condition : ExprNode) (body : Option StmtNode) (location : SourceLocation)
  | forStmt (variableName : List Char) (iterable : ExprNode) (body : Option StmtNode)
      (location : SourceLocation)
  | returnStmt (value : Option ExprNode) (location : SourceLocation)
  | exprStmt (expression : ExprNode) (location : SourceLocation)
  | pipelineStmt (commands : List CommandStmt) (location : SourceLocation)
  deriving Repr

structure Program where
  statements : List StmtNode
  location : SourceLocation
  deriving Repr

namespace ExprNode

def location : ExprNode → SourceLocation
  | integerLiteral _ l | stringLiteral _ l | variableExpr _ l | binaryOpExpr _ _ _ l
  | unaryOpExpr _ _ l | callExpr _ _ l => l

/-- The expression nodes directly below a node. -/
def children : ExprNode → List ExprNode
  | binaryOpExpr _ l r _ => [l, r]
  | unaryOpExpr _ e _ => [e]
  | callExpr _ args _ => args
  | _ => []

/-- `p` holds at every node of the tree. -/
inductive Every (p : ExprNode → Prop) : ExprNode → Prop
  | node {e : ExprNode} : p e → (∀ c ∈ e.children, Every p c) → Every p e

end ExprNode

namespace StmtNode

/-- The expressions a statement holds directly. -/
def exprs : StmtNode → List ExprNode
  | varDeclStmt _ _ init _ => init.toList
  | assignStmt _ v _ | ifStmt v _ _ _ | whileStmt v _ _ | forStmt _ v _ _ | exprStmt v _ => [v]
  | returnStmt v _ => v.toList
  | _ => []

/-- The statements directly below a statement. -/
def children : StmtNode → List StmtNode
  | blockStmt ss _ => ss
  | ifStmt _ t e _ => t.toList ++ e.toList
  | whileStmt _ b _ | forStmt _ _ b _ => b.toList
  | _ => []

/-- `p` holds at every statement of the tree and `q` at every expression node in it. -/
inductive Every (p : StmtNode → Prop) (q : ExprNode → Prop) : StmtNode → Prop
  | node {s : StmtNode} : p s → (∀ e ∈ s.exprs, e.Every q) → (∀ c ∈ s.children, Every p q c) →
      Every p q s

end StmtNode

end AriaShell.Parser
