import AggregatedLogging.Ruby.Json

/-! The conversion `to_f` of texts.  A number is kept as it is written; whether it is
in the range of a float is a question of its own. -/
namespace AggregatedLogging.Ruby

structure Decimal where
  mantissa : Int
  exponent : Int
  deriving DecidableEq, Repr

/-- The digits at the beginning of a text and what follows them.  An underscore may
stand between two digits. -/
def takeDigits : (behindDigit : Bool) → Text → Text × Text
  | _, [] => ([], [])
  | behindDigit, c :: s =>
    if c.isDigit then (c :: (takeDigits true s).1, (takeDigits true s).2)
    else if behindDigit ∧ c = '_' ∧ s.head?.any Char.isDigit then takeDigits false s
    else ([], c :: s)

def takeSign : Text → Bool × Text
  | '-' :: s => (true, s)
  | '+' :: s => (false, s)
  | s => (false, s)

def digitsValue (digits : Text) : Nat :=
  digits.foldl (fun n c => n * 10 + (c.toNat - '0'.toNat)) 0

def signed (negative : Bool) (n : Nat) : Int := if negative then -n else n

def exponentOf : Text → Int
  | [] => 0
  | c :: s =>
    if c = 'e' ∨ c = 'E' then
      signed (takeSign s).1 (digitsValue (takeDigits false (takeSign s).2).1)
    else 0

def takeFraction : Text → Option (Text × Text)
  | '.' :: s => if s.head?.any Char.isDigit then some (takeDigits false s) else none
  | _ => none

/-- The number at the beginning of a text; it is zero when there is none. -/
def toF (s : Text) : Decimal :=
  let number := takeSign (s.dropWhile isSpace)
  let whole := takeDigits false number.2
  match takeFraction whole.2 with
  | some (fraction, rest) =>
    ⟨signed number.1 (digitsValue (whole.1 ++ fraction)), exponentOf rest - fraction.length⟩
  | none =>
    if whole.1 = [] then ⟨0, 0⟩ else ⟨signed number.1 (digitsValue whole.1), exponentOf whole.2⟩

/-- From here on, half a unit beyond the largest double, a float is infinite. -/
def floatBound : Nat := 2 ^ 1024 - 2 ^ 970

def Decimal.isInfinite (d : Decimal) : Bool :=
  if 0 ≤ d.exponent then floatBound ≤ d.mantissa.natAbs * 10 ^ d.exponent.toNat
  else floatBound * 10 ^ (-d.exponent).toNat ≤ d.mantissa.natAbs

example : toF "1504273220.029".toList = ⟨1504273220029, -3⟩ := by decide

example : toF " -1_000.5e3x".toList = ⟨-10005, 2⟩ := by decide

end AggregatedLogging.Ruby
