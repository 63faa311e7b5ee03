import CommittedRegex.Expr.Basic

/-! # Handles to shared nodes

Two equal trees may be made of different nodes. A handle is an expression with the identity of its
root node and handles to its operands; identities are handed out one after the other, so each
construction makes a node of its own, while copies of a handle and the ways down to its operands keep
the identity. -/
namespace CommittedRegex

/-- A node that can be told apart from other nodes with the same tree. -/
inductive Handle
  | node (identity : Nat) (expr : Expr) (operands : List Handle)

namespace Handle

def expr : Handle → Expr
  | node _ expr _ => expr

/-- What tells the node apart. -/
def identity : Handle → Nat
  | node identity _ _ => identity

/-- Whether two handles lead to the same node. -/
def same (a b : Handle) : Bool := a.identity == b.identity

/-- A computation that takes fresh identities one after the other. -/
abbrev Fresh := StateM Nat

def make (expr : Expr) (operands : List Handle) : Fresh Handle := do
  let identity ← get
  set (identity + 1)
  return node identity expr operands

def empty : Fresh Handle := make .empty []

def literal (text : String) : Fresh Handle := make (.literal text) []

def concat (a b : Handle) : Fresh Handle := make (.concat a.expr b.expr) [a, b]

def alternate (a b : Handle) : Fresh Handle := make (.alternate a.expr b.expr) [a, b]

def star (a : Handle) : Fresh Handle := make (.star a.expr) [a]

/-- The operand with the given index, the left one being the first. -/
def operand? (index : Nat) : Handle → Option Handle
  | node _ _ operands => operands[index]?

def iterate (construct : Handle → Fresh Handle) : Nat → Handle → Fresh Handle
  | 0, a => return a
  | n + 1, a => do iterate construct n (← construct a)

end Handle

end CommittedRegex
