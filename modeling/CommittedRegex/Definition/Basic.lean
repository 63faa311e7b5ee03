import CommittedRegex.Expr.Committed

/-! # Definitions with operand lists

A definition describes an expression the way people write it down: a concatenation or a choice takes
any number of operands. What it means is said twice here, on operand lists directly (`committedEnd`)
and by the expression that it stands for (`convert`). -/
namespace CommittedRegex

inductive Definition
  | empty
  | literal (text : String)
  | concat (operands : List Definition)
  | alternate (operands : List Definition)
  | star (body : Definition)
  deriving Inhabited

inductive Operator
  | concat
  | alternate
  deriving DecidableEq, Inhabited

namespace Operator

def name : Operator → String
  | concat => "Concat"
  | alternate => "Alternate"

def apply : Operator → Expr → Expr → Expr
  | concat => .concat
  | alternate => .alternate

end Operator

namespace Definition

mutual

/-- The number of constructors and operands of a definition. -/
def size : Definition → Nat
  | empty => 1
  | literal _ => 1
  | concat operands => 1 + sizeAll operands
  | alternate operands => 1 + sizeAll operands
  | star body => 1 + size body

def sizeAll : List Definition → Nat
  | [] => 0
  | first :: rest => 1 + size first + sizeAll rest

end

inductive Fault
  /-- An operator has no operands. -/
  | noOperand (operator : Operator)
  /-- An operator is to be applied to operands that are not there. -/
  | missingOperand
  /-- Nothing was built. -/
  | nothing
  deriving DecidableEq, Inhabited

def Fault.reason : Fault → String
  | noOperand operator => operator.name ++ " needs at least one operand"
  | missingOperand => "missing operand"
  | nothing => "empty pattern"

/-- Joins a list of expressions from the left; a single one stands for itself. -/
def joinLeft (operator : Operator) (first : Expr) (rest : List Expr) : Expr :=
  rest.foldl operator.apply first

mutual

/-- The expression that a definition stands for, by recursion on the definition. Of several empty
operand lists the one that is met first from the left is to blame. -/
def convert : Definition → Except Fault Expr
  | empty => .ok .empty
  | literal text => .ok (.literal text)
  | concat operands => convertJoined .concat operands
  | alternate operands => convertJoined .alternate operands
  | star body => (convert body).map .star

/-- The expressions of the operands, joined from the left. -/
def convertJoined (operator : Operator) : List Definition → Except Fault Expr
  | [] => .error (.noOperand operator)
  | first :: rest =>
    match convert first with
    | .error fault => .error fault
    | .ok e => convertOnto operator e rest

/-- The expressions of the operands, joined to those on their left. -/
def convertOnto (operator : Operator) (left : Expr) : List Definition → Except Fault Expr
  | [] => .ok left
  | next :: rest =>
    match convert next with
    | .error fault => .error fault
    | .ok e => convertOnto operator (operator.apply left e) rest

end

mutual

/-- Where a definition ends in the input when it starts at an offset, read off its operand lists. -/
def committedEnd (input : String) : Definition → Nat → Option Nat
  | empty => fun _ => none
  | literal text => Text.stop? text input
  | concat operands => endOfAll input operands
  | alternate operands => endOfFirst input operands
  | star body => fun start =>
    some (Expr.foldRounds input.utf8ByteSize (committedEnd input body) id (fun _ stop => stop) start)

/-- Each operand starts where the one before it ended. -/
def endOfAll (input : String) : List Definition → Nat → Option Nat
  | [] => fun start => some start
  | first :: rest => fun start => (committedEnd input first start).bind (endOfAll input rest)

/-- The first operand that matches decides. -/
def endOfFirst (input : String) : List Definition → Nat → Option Nat
  | [] => fun _ => none
  | first :: rest => fun start =>
    match committedEnd input first start with
    | some stop => some stop
    | none => endOfFirst input rest start

end

end Definition

end CommittedRegex
