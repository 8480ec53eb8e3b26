import AriaShell.Parser.Ast
/-! `ShellParser` of `parser/parser.cpp`: recursive descent over the token vector, with
`current_` as the state that an exception leaves where it was, and `parseProgram`'s recovery
from a `ParseError`. Every recursive function and every loop takes fuel; `parse` gives enough. -/
namespace AriaShell.Parser

/-- What a parse can raise: `ParseError` with its message and location, and the faults the model
makes explicit. -/
inductive ParseFault where
  | parseError (message : List Char) (location : SourceLocation)
  /-- `tokens_[i]` with `i` outside the vector, or `back()` of an empty vector -/
  | outOfBounds
  /-- the model's fuel ran out -/
  | outOfFuel
  deriving DecidableEq, Repr

/-- A parser action: `current_` is the state, and it survives an exception. -/
abbrev ParseM := ExceptT ParseFault (StateM Nat)

section Primitives

variable (tokens : List Token)

/-- `tokens_[i]` -/
def tokenAt (i : Nat) : ParseM Token :=
  match tokens.get? i with
  | some t => pure t
  | none => throw .outOfBounds

/-- `peek(offset)`: past the end of the vector, `tokens_.back()`. -/
def peek (offset : Nat) : ParseM Token := do
  match tokens.get? ((← get) + offset) with
  | some t => pure t
  | none =>
    match tokens.getLast? with
    | some t => pure t
    | none => throw .outOfBounds

/-- `tokens_[current_ - 1]`: at `current_ = 0` the index wraps to the largest `size_t`. -/
def previous : ParseM Token := do
  match ← get with
  | 0 => throw .outOfBounds
  | p + 1 => tokenAt tokens p

def isAtEnd : ParseM Bool := do
  return (← peek tokens 0).type == .endOfFile

def check (type : TokenType) : ParseM Bool := do
  if ← isAtEnd tokens then return false
  return (← peek tokens 0).type == type

/-- `check(t₁) || check(t₂) || ...` -/
def checkAny (types : List TokenType) : ParseM Bool :=
  types.anyM (check tokens)

/-- `consume`: `current_` moves unless at END_OF_FILE; the token returned is `tokens_[current_ - 1]`. -/
def consume : ParseM Token := do
  if !(← isAtEnd tokens) then modify (· + 1)
  previous tokens

/-- `match(type)` -/
def matchToken (type : TokenType) : ParseM Bool := do
  if ← check tokens type then
    discard <| consume tokens
    return true
  return false

/-- `match(t₁) || match(t₂) || ...` -/
def matchAny (types : List TokenType) : ParseM Bool :=
  types.anyM (matchToken tokens)

def expect (type : TokenType) (message : List Char) : ParseM Unit := do
  if !(← check tokens type) then throw (.parseError message (← peek tokens 0).location)
  discard <| consume tokens

def isTypeKeyword : ParseM Bool := do
  return (← peek tokens 0).type.isType

/-- `isAssignmentAhead`: an identifier followed by `=`. -/
def isAssignmentAhead : ParseM Bool := do
  if ← check tokens .identifier then return (← peek tokens 1).type == .assign
  return false

/-- The tokens after an identifier that make `parseStatement` read an expression statement. -/
def expressionFollowers : List TokenType :=
  [.plus, .minus, .star, .slash, .eq, .ne, .lt, .gt, .le, .ge, .and, .or, .lparen]

end Primitives

section Loops

variable (tokens : List Token)

/-- The loop of the six binary levels: `while (match(op₁) || ...)`, each time one more operand
to the right, folded to the left. -/
def binaryLoop (ops : List TokenType) (operand : ParseM ExprNode) : Nat → ExprNode → ParseM ExprNode
  | 0, _ => throw .outOfFuel
  | k + 1, left => do
    if ← matchAny tokens ops then
      let opToken ← previous tokens
      let right ← operand
      binaryLoop ops operand k (.binaryOpExpr opToken.type left right opToken.location)
    else return left

/-- A binary level: one operand, then the loop over its operators. -/
def binaryLevel (ops : List TokenType) (operand : ParseM ExprNode) (fuel : Nat) : ParseM ExprNode := do
  binaryLoop tokens ops operand fuel (← operand)

/-- `do { call->arguments.push_back(parseExpression()); } while (match(COMMA));` -/
def argumentsLoop (expression : ParseM ExprNode) : Nat → List ExprNode → ParseM (List ExprNode)
  | 0, _ => throw .outOfFuel
  | k + 1, arguments => do
    let arguments := arguments ++ [← expression]
    if ← matchToken tokens .comma then argumentsLoop expression k arguments else return arguments

/-- `while (match(SEMICOLON)) {}` -/
def skipSemicolons : Nat → ParseM Unit
  | 0 => throw .outOfFuel
  | k + 1 => do if ← matchToken tokens .semicolon then skipSemicolons k

/-- The loop of `parseBlock`: statements up to `}` or END_OF_FILE, the null ones left out. -/
def blockLoop (statement : ParseM (Option StmtNode)) : Nat → List StmtNode → ParseM (List StmtNode)
  | 0, _ => throw .outOfFuel
  | k + 1, statements => do
    if ← check tokens .rbrace then return statements
    if ← isAtEnd tokens then return statements
    let stmt ← statement
    blockLoop statement k (statements ++ stmt.toList)

/-- The argument loop of `parseCommand`: identifiers, strings, integers and `-`. -/
def commandArguments : Nat → List (List Char) → ParseM (List (List Char))
  | 0, _ => throw .outOfFuel
  | k + 1, arguments => do
    if ← checkAny tokens [.identifier, .string, .integer, .minus] then
      commandArguments k (arguments ++ [(← consume tokens).lexeme])
    else return arguments

/-- The `if (match(LT)) ... else if (match(GT)) ... else if (match(REDIRECT_APPEND))` of
`parseRedirections`: each `match` runs only when the one before failed. -/
def redirectionType : ParseM RedirectionType := do
  if ← matchToken tokens .lt then return .input
  if ← matchToken tokens .gt then return .output
  discard <| matchToken tokens .redirectAppend
  return .append

def parseRedirections : Nat → List Redirection → ParseM (List Redirection)
  | 0, _ => throw .outOfFuel
  | k + 1, redirects => do
    if ← checkAny tokens [.lt, .gt, .redirectAppend] then
      let type ← redirectionType tokens
      if ← checkAny tokens [.string, .identifier] then
        parseRedirections k (redirects ++ [⟨type, (← consume tokens).lexeme⟩])
      else throw (.parseError "Expected filename after redirection".toList (← peek tokens 0).location)
    else return redirects

def parseCommand (fuel : Nat) : ParseM CommandStmt := do
  let location := (← peek tokens 0).location
  if !(← check tokens .identifier) then
    throw (.parseError "Expected command name".toList (← peek tokens 0).location)
  let executable := (← consume tokens).lexeme
  let arguments ← commandArguments tokens fuel []
  let redirections ← parseRedirections tokens fuel []
  let background ← matchToken tokens .background
  return ⟨executable, arguments, redirections, background, location⟩

/-- The pipe chain of `parsePipeline`. -/
def pipelineLoop (fuel : Nat) : Nat → List CommandStmt → ParseM (List CommandStmt)
  | 0, _ => throw .outOfFuel
  | k + 1, commands => do
    if ← matchToken tokens .pipe then pipelineLoop fuel k (commands ++ [← parseCommand tokens fuel])
    else return commands

def parsePipeline (fuel : Nat) : ParseM StmtNode := do
  let location := (← peek tokens 0).location
  let first ← parseCommand tokens fuel
  let commands ← pipelineLoop tokens fuel fuel [first]
  discard <| matchToken tokens .semicolon
  return .pipelineStmt commands location

/-- `while (!isAtEnd() && peek().type != SEMICOLON && peek().type != RBRACE) consume();`, the
resynchronisation of `parseProgram` after a `ParseError`. -/
def synchronize : Nat → ParseM Unit
  | 0 => throw .outOfFuel
  | k + 1 => do
    if ← isAtEnd tokens then return
    let type := (← peek tokens 0).type
    if type != .semicolon && type != .rbrace then
      discard <| consume tokens
      synchronize k

end Loops

/-- The statement a parse function built, as the `StmtNode` pointer `parseStatement` returns. -/
def upcast (x : ParseM StmtNode) : ParseM (Option StmtNode) := some <$> x

section Descent

variable (tokens : List Token)

mutual

/-- `parseStatement`: `none` is the null it returns at END_OF_FILE. -/
def parseStatement : Nat → ParseM (Option StmtNode)
  | 0 => throw .outOfFuel
  | n + 1 => do
    skipSemicolons tokens n
    if ← isAtEnd tokens then return none
    if ← check tokens .kwIf then return ← upcast (parseIf n)
    if ← check tokens .kwWhile then return ← upcast (parseWhile n)
    if ← check tokens .kwFor then return ← upcast (parseFor n)
    if ← check tokens .kwReturn then return ← upcast (parseReturn n)
    if ← check tokens .lbrace then return ← upcast (parseBlock n)
    if ← isTypeKeyword tokens then return ← upcast (parseVarDecl n)
    if ← isAssignmentAhead tokens then
      let varName := (← consume tokens).lexeme
      return ← upcast (parseAssignment n varName)
    if ← checkAny tokens [.integer, .lparen] then
      let expr ← parseExpression n
      discard <| matchToken tokens .semicolon
      return some (.exprStmt expr expr.location)
    if ← check tokens .identifier then
      if (← peek tokens 1).type ∈ expressionFollowers then
        let expr ← parseExpression n
        discard <| matchToken tokens .semicolon
        return some (.exprStmt expr expr.location)
    upcast (parsePipeline tokens n)

def parseExpression : Nat → ParseM ExprNode
  | 0 => throw .outOfFuel
  | n + 1 => parseLogicalOr n

def parseLogicalOr : Nat → ParseM ExprNode
  | 0 => throw .outOfFuel
  | n + 1 => binaryLevel tokens [.or] (parseLogicalAnd n) n

def parseLogicalAnd : Nat → ParseM ExprNode
  | 0 => throw .outOfFuel
  | n + 1 => binaryLevel tokens [.and] (parseEquality n) n

def parseEquality : Nat → ParseM ExprNode
  | 0 => throw .outOfFuel
  | n + 1 => binaryLevel tokens [.eq, .ne] (parseComparison n) n

def parseComparison : Nat → ParseM ExprNode
  | 0 => throw .outOfFuel
  | n + 1 => binaryLevel tokens [.lt, .le, .gt, .ge] (parseAdditive n) n

def parseAdditive : Nat → ParseM ExprNode
  | 0 => throw .outOfFuel
  | n + 1 => binaryLevel tokens [.plus, .minus] (parseMultiplicative n) n

def parseMultiplicative : Nat → ParseM ExprNode
  | 0 => throw .outOfFuel
  | n + 1 => binaryLevel tokens [.star, .slash] (parseUnary n) n

def parseUnary : Nat → ParseM ExprNode
  | 0 => throw .outOfFuel
  | n + 1 => do
    if ← matchAny tokens [.minus, .not] then
      let opToken ← previous tokens
      let operand ← parseUnary n
      return .unaryOpExpr opToken.type operand opToken.location
    parsePrimary n

def parsePrimary : Nat → ParseM ExprNode
  | 0 => throw .outOfFuel
  | n + 1 => do
    if ← matchToken tokens .integer then
      let tok ← previous tokens
      return .integerLiteral tok.intValue tok.location
    if ← matchToken tokens .string then
      let tok ← previous tokens
      return .stringLiteral tok.lexeme tok.location
    if ← matchToken tokens .lparen then
      let expr ← parseExpression n
      expect tokens .rparen "Expected \x27)\x27 after expression".toList
      return expr
    if ← check tokens .identifier then return ← parseCallOrVariable n
    throw (.parseError "Expected expression".toList (← peek tokens 0).location)

def parseCallOrVariable : Nat → ParseM ExprNode
  | 0 => throw .outOfFuel
  | n + 1 => do
    let nameToken ← consume tokens
    if ← matchToken tokens .lparen then
      let arguments ← if ← check tokens .rparen then pure []
        else argumentsLoop tokens (parseExpression n) n []
      expect tokens .rparen "Expected \x27)\x27 after arguments".toList
      return .callExpr nameToken.lexeme arguments nameToken.location
    return .variableExpr nameToken.lexeme nameToken.location

def parseBlock : Nat → ParseM StmtNode
  | 0 => throw .outOfFuel
  | n + 1 => do
    let location := (← peek tokens 0).location
    expect tokens .lbrace "Expected \x27\x7b\x27".toList
    let statements ← blockLoop tokens (parseStatement n) n []
    expect tokens .rbrace "Expected \x27\x7d\x27".toList
    return .blockStmt statements location

def parseVarDecl : Nat → ParseM StmtNode
  | 0 => throw .outOfFuel
  | n + 1 => do
    let location := (← peek tokens 0).location
    let type := (← consume tokens).lexeme
    expect tokens .identifier "Expected variable name".toList
    let name := (← previous tokens).lexeme
    let initializer ← if ← matchToken tokens .assign then some <$> parseExpression n else pure none
    discard <| matchToken tokens .semicolon
    return .varDeclStmt type name initializer location

def parseAssignment : Nat → List Char → ParseM StmtNode
  | 0, _ => throw .outOfFuel
  | n + 1, varName => do
    let location := (← peek tokens 0).location
    expect tokens .assign "Expected \x27=\x27".toList
    let value ← parseExpression n
    discard <| matchToken tokens .semicolon
    return .assignStmt varName value location

/-- `parseIf`: the branch is whatever `parseStatement` returns, null included. -/
def parseIf : Nat → ParseM StmtNode
  | 0 => throw .outOfFuel
  | n + 1 => do
    let location := (← peek tokens 0).location
    expect tokens .kwIf "Expected \x27if\x27".toList
    expect tokens .lparen "Expected \x27(\x27 after \x27if\x27".toList
    let condition ← parseExpression n
    expect tokens .rparen "Expected \x27)\x27 after condition".toList
    let thenBranch ← parseStatement n
    let elseBranch ← if ← matchToken tokens .kwElse then parseStatement n else pure none
    return .ifStmt condition thenBranch elseBranch location

def parseWhile : Nat → ParseM StmtNode
  | 0 => throw .outOfFuel
  | n + 1 => do
    let location := (← peek tokens 0).location
    expect tokens .kwWhile "Expected \x27while\x27".toList
    expect tokens .lparen "Expected \x27(\x27 after \x27while\x27".toList
    let condition ← parseExpression n
    expect tokens .rparen "Expected \x27)\x27 after condition".toList
    let body ← parseStatement n
    return .whileStmt condition body location

def parseFor : Nat → ParseM StmtNode
  | 0 => throw .outOfFuel
  | n + 1 => do
    let location := (← peek tokens 0).location
    expect tokens .kwFor "Expected \x27for\x27".toList
    expect tokens .lparen "Expected \x27(\x27 after \x27for\x27".toList
    expect tokens .identifier "Expected loop variable".toList
    let variableName := (← previous tokens).lexeme
    expect tokens .kwIn "Expected \x27in\x27 in for loop".toList
    let iterable ← parseExpression n
    expect tokens .rparen "Expected \x27)\x27 after for header".toList
    let body ← parseStatement n
    return .forStmt variableName iterable body location

def parseReturn : Nat → ParseM StmtNode
  | 0 => throw .outOfFuel
  | n + 1 => do
    let location := (← peek tokens 0).location
    expect tokens .kwReturn "Expected \x27return\x27".toList
    let value ← if !(← check tokens .semicolon) && !(← isAtEnd tokens) then some <$> parseExpression n
      else pure none
    discard <| matchToken tokens .semicolon
    return .returnStmt value location

end

/-- `parseStatement` inside `parseProgram`'s `try`: a `ParseError` is caught, any other
exception goes on. -/
def catchParseError (x : ParseM (Option StmtNode)) : ParseM (Option (Option StmtNode)) :=
  tryCatch (some <$> x) fun
    | .parseError _ _ => pure none
    | e => throw e

/-- The loop of `parseProgram`: after a `ParseError`, skip to the next `;` and go on, or stop. -/
def programLoop (statement : ParseM (Option StmtNode)) : Nat → List StmtNode → ParseM (List StmtNode)
  | 0, _ => throw .outOfFuel
  | k + 1, statements => do
    if ← isAtEnd tokens then return statements
    match ← catchParseError statement with
    | some stmt => programLoop statement k (statements ++ stmt.toList)
    | none =>
      synchronize tokens k
      if ← matchToken tokens .semicolon then programLoop statement k statements
      else return statements

/-- `parseProgram`, with `fuel` for every recursion and loop. -/
def parseProgram (fuel : Nat) : ParseM Program := do
  let location := (← peek tokens 0).location
  let statements ← programLoop tokens (parseStatement tokens fuel) fuel []
  return ⟨statements, location⟩

end Descent

/-- `ShellParser(tokens).parseProgram()` from `current_ = 0`, with fuel enough for any token
vector that ends in END_OF_FILE. -/
def parse (tokens : List Token) : Except ParseFault Program :=
  ((parseProgram tokens (12 * tokens.length + 12)).run.run 0).1

end AriaShell.Parser
