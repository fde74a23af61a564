import AggregatedLogging.Text
import Mathlib.Data.List.DropRight
import Mathlib.Algebra.Ring.Nat
import Mathlib.Algebra.Ring.Int.Defs

/-! JSON values as hashes, arrays and scalars of Ruby, and the calls that the
plugins make on them without a look at their class. -/
namespace AggregatedLogging.Ruby

/-- A number that is no integer is `mantissa * 10 ^ exponent`.  A hash has each
of its keys once. -/
inductive Json where
  | null
  | bool (b : Bool)
  | int (n : Int)
  | decimal (mantissa exponent : Int)
  | str (s : Text)
  | arr (items : List Json)
  | obj (fields : List (Text × Json))

abbrev Fields := List (Text × Json)

inductive RubyError where
  | nameError
  | noMethodError
  | typeError
  | argumentError
  deriving DecidableEq, Repr

namespace Json

def truthy : Json → Bool
  | .null | .bool false => false
  | _ => true

/-- `value || default`, where a missing value is `nil`. -/
def orElse (value : Option Json) (default : Json) : Json := (value.filter truthy).getD default

def text? : Json → Option Text
  | .str s => some s
  | _ => none

def isText (v : Json) (s : Text) : Bool :=
  match v with
  | .str t => t = s
  | _ => false

end Json

def isSpace (c : Char) : Bool :=
  c = ' ' || c = '\t' || c = '\n' || c = '\r' || c = Char.ofNat 11 || c = Char.ofNat 12

/-- White space is left out at both ends, a null character at the end only. -/
def strip (s : Text) : Text :=
  (s.dropWhile isSpace).rdropWhile fun c => isSpace c || c = Char.ofNat 0

/-- The number at the beginning of a text; an underscore may stand between two
digits. -/
def leadingNumber (n : Nat) (afterDigit : Bool) : Text → Nat
  | [] => n
  | c :: s =>
    if c.isDigit then leadingNumber (n * 10 + (c.toNat - '0'.toNat)) true s
    else if c = '_' ∧ afterDigit then leadingNumber n false s
    else n

def textToI (s : Text) : Int :=
  match s.dropWhile isSpace with
  | '-' :: s => -leadingNumber 0 false s
  | '+' :: s => leadingNumber 0 false s
  | s => leadingNumber 0 false s

def truncate (mantissa exponent : Int) : Int :=
  if 0 ≤ exponent then mantissa * 10 ^ exponent.toNat else mantissa.tdiv (10 ^ (-exponent).toNat)

/-- The conversion `to_i`, which booleans, arrays and hashes do not have. -/
def Json.toI : Json → Except RubyError Int
  | .null => .ok 0
  | .int n => .ok n
  | .decimal m e => .ok (truncate m e)
  | .str s => .ok (textToI s)
  | .bool _ | .arr _ | .obj _ => .error .noMethodError

def Json.isNumeric : Json → Bool
  | .null | .int _ | .decimal _ _ | .str _ => true
  | .bool _ | .arr _ | .obj _ => false

theorem Json.toI_ok {v : Json} : (∃ n, v.toI = .ok n) ↔ v.isNumeric = true := by
  cases v <;> simp [toI, isNumeric]

/-- Asks a value for its keys, one after the other, and stops at a missing one.
Only hashes can be asked. -/
def dig : Json → List Text → Except RubyError (Option Json)
  | v, [] => .ok (some v)
  | .obj fields, k :: ks =>
    match fields.lookup k with
    | none => .ok none
    | some v => dig v ks
  | _, _ :: _ => .error .noMethodError

def walkable : Json → List Text → Bool
  | _, [] => true
  | .obj fields, k :: ks => (fields.lookup k).all fun v => walkable v ks
  | _, _ :: _ => false

def follow : Json → List Text → Option Json
  | v, [] => some v
  | .obj fields, k :: ks => (fields.lookup k).bind fun v => follow v ks
  | _, _ :: _ => none

theorem dig_eq (v : Json) (ks : List Text) :
    dig v ks = if walkable v ks then .ok (follow v ks) else .error .noMethodError := by
  induction ks generalizing v with
  | nil => cases v <;> rfl
  | cons k ks ih =>
    cases v with
    | obj fields =>
      rw [dig, walkable, follow]
      cases fields.lookup k with
      | none => rfl
      | some w => exact ih w
    | _ => rfl

/-- The parts between dots; empty ones at the end are dropped. -/
def splitDotsFrom (part : Text) : Text → List Text
  | [] => [part]
  | c :: s => if c = '.' then part :: splitDotsFrom [] s else splitDotsFrom (part ++ [c]) s

def splitDots (s : Text) : List Text := (splitDotsFrom [] s).rdropWhile List.isEmpty

end AggregatedLogging.Ruby
