/-!
Syntax faults: the rule that a token breaks. The wording is in one place, so a diagnostic can be
traced back to its rule.
-/

namespace Treewalk

inductive SyntaxFault where
  | functionName
  | parenAfterFunctionName
  | tooManyParameters
  | parameterName
  | parenAfterParameters
  | braceBeforeBody
  | variableName
  | semicolonAfterVariable
  | parenAfterFor
  | semicolonAfterCondition
  | parenAfterClauses
  | parenAfterIf
  | parenAfterIfCondition
  | semicolonAfterPrinted
  | topLevelReturn
  | semicolonAfterReturned
  | parenAfterWhile
  | parenAfterCondition
  | braceAfterBlock
  | semicolonAfterExpression
  | assignmentTarget
  | colonAfterBranch
  | tooManyArguments
  | parenAfterArguments
  | parenAfterExpression
  | expression
deriving DecidableEq, Repr

/-- The most arguments of a call and parameters of a function. -/
def mostArguments : Nat := 255

def SyntaxFault.message : SyntaxFault → String
  | .functionName => "Expect function name."
  | .parenAfterFunctionName => "Expect '(' after function name."
  | .tooManyParameters => "Can't have more than 255 parameters."
  | .parameterName => "Expect parameter name."
  | .parenAfterParameters => "Expect ')' after parameters."
  | .braceBeforeBody => "Expect '\x7b' before function body."
  | .variableName => "Expect variable name."
  | .semicolonAfterVariable => "Expect ';' after variable declaration."
  | .parenAfterFor => "Expect '(' after 'for'."
  | .semicolonAfterCondition => "Expect ';' after loop condition."
  | .parenAfterClauses => "Expect ')' after for clauses."
  | .parenAfterIf => "Expect '(' after 'if'."
  | .parenAfterIfCondition => "Expect ')' after if condition."
  | .semicolonAfterPrinted => "Expect ';' after value."
  | .topLevelReturn => "Can't return from top-level code."
  | .semicolonAfterReturned => "Expect ';' after return value."
  | .parenAfterWhile => "Expect '(' after 'while'."
  | .parenAfterCondition => "Expect ')' after condition."
  | .braceAfterBlock => "Expect '\x7d' after block."
  | .semicolonAfterExpression => "Expect ';' after expression."
  | .assignmentTarget => "Invalid assignment target."
  | .colonAfterBranch => "Expect ':' after then branch of ternary expression."
  | .tooManyArguments => "Can't have more than 255 arguments."
  | .parenAfterArguments => "Expect ')' after arguments."
  | .parenAfterExpression => "Expect ')' after expression."
  | .expression => "Expect expression."

end Treewalk
