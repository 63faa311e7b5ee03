import CommittedRegex.Binary64.Basic

/-! # The shortest decimal form

The decimal form of a number has the fewest digits that are nearer to it than to any other number of
the format. For each count of digits the two neighbours of the number on the decimal grid are tried;
of two that fit the nearer one is taken, and the upper one if both are equally near. -/
namespace CommittedRegex.Binary64

/-- The decimal number `digits * 10 ^ scale`. -/
structure Decimal where
  digits : Nat
  scale : Int
  deriving DecidableEq, Inhabited

/-- A positive number with the ends of the interval of the reals that are rounded to it, as multiples
of one quarter of a unit in its last place. -/
structure Neighbourhood where
  low : Nat
  value : Nat
  high : Nat
  exponent : Int
  closed : Bool

/-- The reals that are rounded to `mantissa * 2 ^ exponent`. Below a power of two they are denser. -/
def neighbourhood (mantissa : Nat) (exponent : Int) : Neighbourhood where
  low := if mantissa = twoTo 52 ∧ leastExponent < exponent then 4 * mantissa - 1 else 4 * mantissa - 2
  value := 4 * mantissa
  high := 4 * mantissa + 2
  exponent := exponent - 2
  closed := mantissa % 2 == 0

/-- The factors by which quarters and the grid of `10 ^ scale` become multiples of a common unit. -/
def commonUnits (exponent scale : Int) : Nat × Nat :=
  (twoTo exponent.toNat * tenTo (-scale).toNat, tenTo scale.toNat * twoTo (-exponent).toNat)

/-- The point of the grid of `10 ^ scale` that lies in the neighbourhood and is nearest to the
number. -/
def onGrid? (n : Neighbourhood) (scale : Int) : Option Nat :=
  let (quarter, grid) := commonUnits n.exponent scale
  let value := n.value * quarter
  let below := value / grid
  let above := below + 1
  let inside (point : Nat) : Bool :=
    let lowest := n.low * quarter
    let highest := n.high * quarter
    if n.closed then lowest ≤ point * grid ∧ point * grid ≤ highest
    else lowest < point * grid ∧ point * grid < highest
  let nearer : Bool := value - below * grid < above * grid - value
  match inside below, inside above with
  | true, true => some (if nearer then below else above)
  | true, false => some below
  | false, true => some above
  | false, false => none

/-- The least scale, from `scale` down, whose unit `10 ^ scale` is at most the number; `count` many
are tried. -/
def leadingScale (n : Neighbourhood) : (count : Nat) → (scale : Int) → Int
  | 0, scale => scale
  | count + 1, scale =>
    let (quarter, grid) := commonUnits n.exponent scale
    if grid ≤ n.value * quarter then scale else leadingScale n count (scale - 1)

/-- The point of the grid of `10 ^ scale`. If it ends with a zero it is also a point of the grid that is
ten times as coarse. -/
def gridPoint (digits : Nat) (scale : Int) : Decimal :=
  if digits % 10 = 0 then ⟨digits / 10, scale + 1⟩ else ⟨digits, scale⟩

/-- The first point that a grid has in the neighbourhood, from coarse to fine. A grid that is coarser
than the first one has no point there, unless the first one has it too. -/
def firstGrid (n : Neighbourhood) : (count : Nat) → (scale : Int) → Decimal
  | 0, scale => ⟨0, scale⟩
  | count + 1, scale =>
    match onGrid? n scale with
    | some digits => gridPoint digits scale
    | none => firstGrid n count (scale - 1)

/-- The shortest decimal form of a finite number without its sign. -/
def shortest (mantissa : Nat) (exponent : Int) : Decimal :=
  if mantissa = 0 then ⟨0, 0⟩
  else
    let n := neighbourhood mantissa exponent
    firstGrid n 18 (leadingScale n 640 309)

/-- A decimal number written out, with at least one digit on either side of the point. -/
def Decimal.text (d : Decimal) : String :=
  let digits := toString d.digits
  if 0 ≤ d.scale then digits ++ String.ofList (List.replicate d.scale.toNat '0') ++ ".0"
  else
    let places := (-d.scale).toNat
    let padded := List.replicate (places + 1 - digits.length) '0' ++ digits.toList
    let whole := padded.take (padded.length - places)
    String.ofList (whole ++ '.' :: padded.drop (padded.length - places))

def text : Binary64 → String
  | finite negative mantissa exponent =>
    (if negative then "-" else "") ++ (shortest mantissa exponent).text
  | infinite negative => if negative then "-inf" else "inf"
  | nan => "NaN"

end CommittedRegex.Binary64
