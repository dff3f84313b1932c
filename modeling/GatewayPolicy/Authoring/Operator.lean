import GatewayPolicy.Authoring.Token

/-! # Operators

  The operators of expressions, how they are spelt, and how tightly the binary
  ones bind.

  - `BinaryOp.precedence` grows with how tightly an operator binds.
  - `BinaryOp.rightMin` is the least precedence that an operator may have on
    the right: every operator groups to the left, but for `??`.
-/

namespace GatewayPolicy

/-- Operators with one operand. -/
inductive UnaryOp where
  | not | negate | plus | complement | increment | decrement | await
  | postIncrement | postDecrement
  deriving DecidableEq, Repr, Inhabited

namespace UnaryOp

/-- How an operator is named. -/
def text : UnaryOp → String
  | not => "!"
  | negate => "-"
  | plus => "+"
  | complement => "~"
  | increment => "++"
  | decrement => "--"
  | await => "await"
  | postIncrement => "post++"
  | postDecrement => "post--"

/-- The operator that a symbol in front of an operand is. -/
def ofLeading? : Symbol → Option UnaryOp
  | .bang => some not
  | .minus => some negate
  | .plus => some plus
  | .tilde => some complement
  | .increment => some increment
  | .decrement => some decrement
  | _ => none

end UnaryOp

/-- Operators with two operands. -/
inductive BinaryOp where
  | coalesce | orElse | andAlso | bitOr | bitXor | bitAnd
  | equal | notEqual | less | greater | lessEqual | greaterEqual | isType | asType
  | shiftLeft | shiftRight | add | subtract | multiply | divide | modulo
  deriving DecidableEq, Repr, Inhabited

namespace BinaryOp

/-- How an operator is spelt. -/
def text : BinaryOp → String
  | coalesce => "??"
  | orElse => "||"
  | andAlso => "&&"
  | bitOr => "|"
  | bitXor => "^"
  | bitAnd => "&"
  | equal => "=="
  | notEqual => "!="
  | less => "<"
  | greater => ">"
  | lessEqual => "<="
  | greaterEqual => ">="
  | isType => "is"
  | asType => "as"
  | shiftLeft => "<<"
  | shiftRight => ">>"
  | add => "+"
  | subtract => "-"
  | multiply => "*"
  | divide => "/"
  | modulo => "%"

/-- How tightly an operator binds. -/
def precedence : BinaryOp → Nat
  | coalesce => 1
  | orElse => 2
  | andAlso => 3
  | bitOr => 4
  | bitXor => 5
  | bitAnd => 6
  | equal | notEqual => 7
  | less | greater | lessEqual | greaterEqual | isType | asType => 8
  | shiftLeft | shiftRight => 9
  | add | subtract => 10
  | multiply | divide | modulo => 11

/-- The least precedence of an operator to the right of this one. -/
def rightMin : BinaryOp → Nat
  | coalesce => precedence coalesce
  | op => op.precedence + 1

/-- Whether the right operand is a type or a pattern. -/
def testsType : BinaryOp → Bool
  | isType | asType => true
  | _ => false

/-- The operator that a single symbol is. -/
def ofSymbol? : Symbol → Option BinaryOp
  | .coalesce => some coalesce
  | .orElse => some orElse
  | .andAlso => some andAlso
  | .bar => some bitOr
  | .caret => some bitXor
  | .ampersand => some bitAnd
  | .equal => some equal
  | .notEqual => some notEqual
  | .less => some less
  | .greater => some greater
  | .lessEqual => some lessEqual
  | .greaterEqual => some greaterEqual
  | .shiftLeft => some shiftLeft
  | .plus => some add
  | .minus => some subtract
  | .star => some multiply
  | .slash => some divide
  | .percent => some modulo
  | _ => none

end BinaryOp

/-- Assignments, plain and compound. -/
inductive AssignOp where
  | plain | add | subtract | multiply | divide | modulo
  | bitAnd | bitOr | bitXor | shiftLeft | coalesce
  deriving DecidableEq, Repr, Inhabited

namespace AssignOp

/-- How an assignment is spelt. -/
def text : AssignOp → String
  | plain => "="
  | add => "+="
  | subtract => "-="
  | multiply => "*="
  | divide => "/="
  | modulo => "%="
  | bitAnd => "&="
  | bitOr => "|="
  | bitXor => "^="
  | shiftLeft => "<<="
  | coalesce => "??="

/-- The assignment that a symbol is. -/
def ofSymbol? : Symbol → Option AssignOp
  | .assign => some plain
  | .plusAssign => some add
  | .minusAssign => some subtract
  | .timesAssign => some multiply
  | .divideAssign => some divide
  | .moduloAssign => some modulo
  | .andAssign => some bitAnd
  | .orAssign => some bitOr
  | .xorAssign => some bitXor
  | .shiftLeftAssign => some shiftLeft
  | .coalesceAssign => some coalesce
  | _ => none

end AssignOp

end GatewayPolicy
