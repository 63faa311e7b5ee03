import CommittedRegex.Binary64.Basic

/-! # Documents as values

What a TOML document says: tables keep their keys in the order of the document, integers have 64 bits
with a sign. Of dates and times nothing is kept but that they are there. -/
namespace CommittedRegex.Toml

inductive ArrayForm
  | brackets
  | headers
  deriving DecidableEq, Inhabited

inductive Value
  | string (text : String)
  | integer (value : Int)
  | float (value : Binary64)
  | boolean (value : Bool)
  | datetime
  | array (form : ArrayForm) (items : List Value)
  | table (entries : List (String × Value))
  deriving Inhabited

abbrev Entries := List (String × Value)

namespace Value

def typeName : Value → String
  | string _ => "string"
  | integer _ => "integer"
  | float _ => "float"
  | boolean _ => "boolean"
  | datetime => "datetime"
  | array _ _ => "array"
  | table _ => "table"

end Value

end CommittedRegex.Toml
