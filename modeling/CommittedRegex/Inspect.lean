import CommittedRegex.Expr.Printer
import CommittedRegex.Machine.Drive

/-! # The inner state as text

The text that shows a value with the names of its fields, for whoever drives a machine by hand. -/
namespace CommittedRegex

namespace Inspect

/-- A record: its name, and its fields with their texts. -/
def record (name : String) (fields : List (String × String)) : String :=
  name ++ " \x7b " ++ ", ".intercalate (fields.map fun field => field.1 ++ ": " ++ field.2) ++ " \x7d"

/-- A value that may be missing. -/
def optional : Option String → String
  | none => "None"
  | some text => "Some(" ++ text ++ ")"

def list (texts : List String) : String := "[" ++ ", ".intercalate texts ++ "]"

/-- An offset that may be missing. -/
def offset (result : Option Nat) : String := optional (result.map toString)

end Inspect

open Inspect

def ZeroWidth.inspect : ZeroWidth → String
  | guard => "Guard"
  | faithful => "Faithful"

def Config.inspect (config : Config) : String :=
  record "MatchConfig" [("zero_width", config.zeroWidth.inspect), ("max_steps", offset config.maxSteps)]

def ContId.inspect (id : ContId) : String := "ContId(" ++ toString id.index ++ ")"

def Continuation.inspect : Continuation → String
  | done => "Done"
  | afterConcat right next =>
    record "AfterConcat" [("right", right.inspect), ("next", next.inspect)]
  | afterAlternate second start next =>
    record "AfterAlternate"
      [("second", second.inspect), ("start", toString start), ("next", next.inspect)]
  | afterRepeat node lastGood next =>
    record "AfterRepeat"
      [("node", node.inspect), ("last_good", toString lastGood), ("next", next.inspect)]

def WorkItem.inspect : WorkItem → String
  | eval e start cont =>
    record "Eval" [("expr", e.inspect), ("pos", toString start), ("cont", cont.inspect)]
  | resume result cont => record "Resume" [("result", offset result), ("cont", cont.inspect)]
  | finished result => "Finished(" ++ offset result ++ ")"

def Store.inspect (store : Store) : String :=
  record "ContinuationStore"
    [("slots", list (store.slots.toList.map fun slot => optional (slot.map Continuation.inspect))),
      ("free", list (store.free.reverse.map toString)),
      ("live", toString store.live),
      ("peak", toString store.peak)]

def Machine.inspect (machine : Machine) : String :=
  record "Trampoline"
    [("input", Text.quoted machine.input),
      ("config", machine.config.inspect),
      ("store", machine.store.inspect),
      ("steps", toString machine.steps)]

end CommittedRegex
