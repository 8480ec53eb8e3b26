import Mathlib.Algebra.Order.Ring.Int
import Mathlib.Data.List.Lex
import Mathlib.Data.Char
import AriaShell.Parser.Ast
/-! The tree-walking interpreter of `executor/executor.cpp`. `State` holds the members of
`Executor` that outlive a visit; `exprResult_` is the value `evaluateExpr` returns, every expression
visitor setting it or throwing, so "Expression did not produce a value" cannot be raised and is
left out. A run ends normally, raises one of the `std::runtime_error`s of the source, stops at a
null statement pointer the source would dereference (`nullDeref`), or runs out of the fuel that
bounds a `while` loop. The `double` alternative of `Value` is left out: no node the parser builds
produces one. `int64_t` arithmetic wraps modulo `2^64`, as the machine does where C++ leaves
signed overflow undefined. -/
namespace AriaShell.Executor

open AriaShell.Parser

/-- `Value`, without its `double` alternative. -/
inductive Value where
  | int (v : Int)
  | string (s : List Char)
  | bool (b : Bool)
  deriving DecidableEq, Repr

/-- An `int64_t` result: the two's complement value of the low 64 bits. -/
def wrap (v : Int) : Int := v.bmod (2 ^ 64)

def valueToString : Value → List Char
  | .int v => (toString v).toList
  | .string s => s
  | .bool b => if b then "true".toList else "false".toList

def isTruthy : Value → Bool
  | .bool b => b
  | .int v => v != 0
  | .string s => !s.isEmpty

/-- The `std::runtime_error`s of the executor, one constructor a throw site. -/
inductive RuntimeError where
  | undefinedVariable (name : List Char)
  | unknownBinaryOperator
  | cannotNegate
  | unknownUnaryOperator
  | lenArity
  | lenArgument
  | unknownFunction (name : List Char)
  | divisionByZero
  | unknownArithmeticOperator
  | arithmeticTypeMismatch
  | unknownComparisonOperator
  | comparisonTypeMismatch
  | unknownLogicalOperator
  | forNotImplemented
  deriving DecidableEq, Repr

/-- The `what()` text of each error. -/
def RuntimeError.what : RuntimeError → List Char
  | undefinedVariable name => "Undefined variable: ".toList ++ name
  | unknownBinaryOperator => "Unknown binary operator".toList
  | cannotNegate => "Cannot negate non-numeric value".toList
  | unknownUnaryOperator => "Unknown unary operator".toList
  | lenArity => "len() expects 1 argument".toList
  | lenArgument => "len() expects string argument".toList
  | unknownFunction name => "Unknown function: ".toList ++ name
  | divisionByZero => "Division by zero".toList
  | unknownArithmeticOperator => "Unknown arithmetic operator".toList
  | arithmeticTypeMismatch => "Type mismatch in arithmetic operation".toList
  | unknownComparisonOperator => "Unknown comparison operator".toList
  | comparisonTypeMismatch => "Type mismatch in comparison".toList
  | unknownLogicalOperator => "Unknown logical operator".toList
  | forNotImplemented => "For loops not yet implemented".toList

/-- The default branches of the operator dispatch: the errors `Executor` raises for an operator
it does not implement. -/
def RuntimeError.isUnknownOperator : RuntimeError → Bool
  | unknownBinaryOperator | unknownUnaryOperator | unknownArithmeticOperator
  | unknownComparisonOperator | unknownLogicalOperator => true
  | _ => false

/-- How a run of the executor stops early. -/
inductive ExecFault where
  | runtimeError (error : RuntimeError)
  | nullDeref
  /-- `idiv` on `INT64_MIN / -1`: the quotient does not fit, the processor raises a divide error
  and the process dies of `SIGFPE` -/
  | divisionTrap
  | outOfFuel
  deriving DecidableEq, Repr

/-- `Environment`: `define` overwrites a binding, so the newest pair of a name is its value. -/
structure Environment where
  bindings : List (List Char × Value) := []

namespace Environment

def define (env : Environment) (name : List Char) (value : Value) : Environment :=
  ⟨(name, value) :: env.bindings⟩

def «exists» (env : Environment) (name : List Char) : Bool := (env.bindings.lookup name).isSome

def get (env : Environment) (name : List Char) : Except RuntimeError Value :=
  match env.bindings.lookup name with
  | some v => .ok v
  | none => .error (.undefinedVariable name)

def assign (env : Environment) (name : List Char) (value : Value) : Except RuntimeError Environment :=
  if env.exists name then .ok (env.define name value) else .error (.undefinedVariable name)

end Environment

/-- The members of an `Executor`: its environment, `lastResult_`, `hasReturned_`, what `print`
wrote to `std::cout`, and the commands `executeCommand` started. -/
structure State where
  env : Environment := {}
  lastResult : Option Value := none
  hasReturned : Bool := false
  stdout : List Char := []
  launched : List CommandStmt := []

/-- The executor's actions: faults abort the run, the state is kept. -/
abbrev ExecM := ExceptT ExecFault (StateM State)

/-- A `std::runtime_error` thrown from a helper that returns a value or throws. -/
def liftRuntime {α : Type} : Except RuntimeError α → ExecM α
  | .ok a => pure a
  | .error e => throw (.runtimeError e)

/-- A helper that returns a value, throws a `std::runtime_error`, or traps. -/
def liftFault {α : Type} : Except ExecFault α → ExecM α
  | .ok a => pure a
  | .error f => throw f

/-! ## Operators -/

/-- `Executor::applyArithmetic`: `l / r` is the machine's `idiv`, which traps on `INT64_MIN / -1`. -/
def applyArithmetic (op : TokenType) (left right : Value) : Except ExecFault Value :=
  match left, right with
  | .int l, .int r =>
    match op with
    | .plus => .ok (.int (wrap (l + r)))
    | .minus => .ok (.int (wrap (l - r)))
    | .star => .ok (.int (wrap (l * r)))
    | .slash =>
      if r = 0 then .error (.runtimeError .divisionByZero)
      else if l = -2 ^ 63 ∧ r = -1 then .error .divisionTrap
      else .ok (.int (wrap (l.tdiv r)))
    | _ => .error (.runtimeError .unknownArithmeticOperator)
  | _, _ =>
    if op = .plus ∧ ((left matches .string _) || (right matches .string _)) then
      .ok (.string (valueToString left ++ valueToString right))
    else .error (.runtimeError .arithmeticTypeMismatch)

def applyComparison (op : TokenType) (left right : Value) : Except RuntimeError Value :=
  match left, right with
  | .int l, .int r =>
    match op with
    | .lt => .ok (.bool (decide (l < r)))
    | .le => .ok (.bool (decide (l ≤ r)))
    | .gt => .ok (.bool (decide (l > r)))
    | .ge => .ok (.bool (decide (l ≥ r)))
    | .eq => .ok (.bool (decide (l = r)))
    | .ne => .ok (.bool (decide (l ≠ r)))
    | _ => .error .unknownComparisonOperator
  | .string l, .string r =>
    match op with
    | .eq => .ok (.bool (decide (l = r)))
    | .ne => .ok (.bool (decide (l ≠ r)))
    | .lt => .ok (.bool (decide (l < r)))
    | .le => .ok (.bool (decide (l ≤ r)))
    | .gt => .ok (.bool (decide (l > r)))
    | .ge => .ok (.bool (decide (l ≥ r)))
    | _ => .error .unknownComparisonOperator
  | _, _ => .error .comparisonTypeMismatch

def applyLogical (op : TokenType) (left right : Value) : Except RuntimeError Value :=
  match op with
  | .and => .ok (.bool (isTruthy left && isTruthy right))
  | .or => .ok (.bool (isTruthy left || isTruthy right))
  | _ => .error .unknownLogicalOperator

/-- The dispatch of `visit(BinaryOpExpr)` once both operands are values. -/
def binaryOp (op : TokenType) (left right : Value) : Except ExecFault Value :=
  if op ∈ [.plus, .minus, .star, .slash] then applyArithmetic op left right
  else if op ∈ [.lt, .le, .gt, .ge, .eq, .ne] then (applyComparison op left right).mapError .runtimeError
  else if op ∈ [.and, .or] then (applyLogical op left right).mapError .runtimeError
  else .error (.runtimeError .unknownBinaryOperator)

/-- The dispatch of `visit(UnaryOpExpr)` once the operand is a value. -/
def unaryOp (op : TokenType) (operand : Value) : Except RuntimeError Value :=
  if op = .minus then
    match operand with
    | .int v => .ok (.int (wrap (-v)))
    | _ => .error .cannotNegate
  else if op = .not then .ok (.bool (!isTruthy operand))
  else .error .unknownUnaryOperator

/-! ## Expressions -/

/-- `std::cout << text` -/
def write (text : List Char) : ExecM Unit := modify fun st => { st with stdout := st.stdout ++ text }

mutual

/-- `Executor::evaluateExpr`, with the expression visitors. -/
def evaluateExpr : ExprNode → ExecM Value
  | .integerLiteral value _ => pure (.int value)
  | .stringLiteral value _ => pure (.string value)
  | .variableExpr name _ => do liftRuntime ((← get).env.get name)
  | .binaryOpExpr op left right _ => do
    let l ← evaluateExpr left
    let r ← evaluateExpr right
    liftFault (binaryOp op l r)
  | .unaryOpExpr op operand _ => do
    let v ← evaluateExpr operand
    liftRuntime (unaryOp op v)
  | .callExpr function arguments _ =>
    if function = "print".toList then do
      printArguments arguments
      write ['\n']
      pure (.int 0)
    else if function = "len".toList then
      match arguments with
      | [argument] => do
        match ← evaluateExpr argument with
        | .string s => pure (.int s.length)
        | _ => throw (.runtimeError .lenArgument)
      | _ => throw (.runtimeError .lenArity)
    else throw (.runtimeError (.unknownFunction function))

/-- The loop of the built-in `print`. -/
def printArguments : List ExprNode → ExecM Unit
  | [] => pure ()
  | argument :: rest => do
    write (valueToString (← evaluateExpr argument))
    printArguments rest

end

/-! ## Statements -/

/-- `node.x->accept(*this)` on a `std::unique_ptr` that may be null. -/
def deref (node : Option StmtNode) (accept : StmtNode → ExecM Unit) : ExecM Unit :=
  match node with
  | some s => accept s
  | none => throw .nullDeref

/-- The loop of `visit(BlockStmt)` and `visit(Program)`: stop once a `return` ran. -/
def executeAll (accept : StmtNode → ExecM Unit) : List StmtNode → ExecM Unit
  | [] => pure ()
  | stmt :: rest => do
    if (← get).hasReturned then return
    accept stmt
    executeAll accept rest

/-- The loop of `visit(WhileStmt)`, with `fuel` iterations. -/
def whileLoop (condition : ExecM Value) (body : ExecM Unit) : Nat → ExecM Unit
  | 0 => throw .outOfFuel
  | k + 1 => do
    if !isTruthy (← condition) then return
    body
    if (← get).hasReturned then return
    whileLoop condition body k

/-- The initial value `visit(VarDeclStmt)` gives a declaration without an initializer. -/
def defaultValue (type : List Char) : Value :=
  if type ∈ ["int8".toList, "int16".toList, "int32".toList, "int64".toList] then .int 0
  else if type = "string".toList then .string []
  else if type = "bool".toList then .bool false
  else .int 0

section Visit

/- What `executeCommand` stores in `lastResult_` for a command: `-1` when the spawn fails, `0`
for a background job, and the exit code of a foreground one. -/
variable (commandResult : CommandStmt → Int)

/-- `Executor::executeCommand`, as its effect on the executor. -/
def executeCommand (cmd : CommandStmt) : ExecM Unit :=
  modify fun st => { st with launched := st.launched ++ [cmd], lastResult := some (.int (commandResult cmd)) }

/-- `Executor::executePipeline`: a pipeline of several commands only prints a warning. -/
def executePipeline : List CommandStmt → ExecM Unit
  | [cmd] => executeCommand commandResult cmd
  | _ => pure ()

/-- The statement visitors, with `fuel` for the nesting and for each `while` loop. -/
def visit : Nat → StmtNode → ExecM Unit
  | 0, _ => throw .outOfFuel
  | n + 1, .blockStmt statements _ => executeAll (visit n) statements
  | _ + 1, .varDeclStmt type name initializer _ => do
    let value ← match initializer with
      | some e => evaluateExpr e
      | none => pure (defaultValue type)
    modify fun st => { st with env := st.env.define name value }
  | _ + 1, .assignStmt variableName value _ => do
    let v ← evaluateExpr value
    let env ← liftRuntime ((← get).env.assign variableName v)
    modify fun st => { st with env := env }
  | n + 1, .ifStmt condition thenBranch elseBranch _ => do
    if isTruthy (← evaluateExpr condition) then deref thenBranch (visit n)
    else match elseBranch with
      | some s => visit n s
      | none => pure ()
  | n + 1, .whileStmt condition body _ => whileLoop (evaluateExpr condition) (deref body (visit n)) n
  | _ + 1, .forStmt _ _ _ _ => throw (.runtimeError .forNotImplemented)
  | _ + 1, .returnStmt value _ => do
    if let some e := value then
      let v ← evaluateExpr e
      modify fun st => { st with lastResult := some v }
    modify fun st => { st with hasReturned := true }
  | _ + 1, .exprStmt expression _ => do
    let v ← evaluateExpr expression
    modify fun st => { st with lastResult := some v }
  | _ + 1, .pipelineStmt commands _ => executePipeline commandResult commands

/-- `Executor::execute`, through `visit(Program)`. -/
def execute (fuel : Nat) (program : Program) : ExecM Unit :=
  executeAll (visit commandResult fuel) program.statements

end Visit

end AriaShell.Executor
