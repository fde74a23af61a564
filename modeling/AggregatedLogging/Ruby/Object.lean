import AggregatedLogging.Wire
import Mathlib.Algebra.Ring.Int.Defs

/-! Objects that come out of a message and the methods that a script calls on them
without a look at their class. -/
namespace AggregatedLogging.Ruby

open Wire

/-- A string is a text, bytes that are no text although they should be, or bytes
without an encoding. -/
inductive Object where
  | nil
  | bool (b : Bool)
  | int (n : Int)
  | float (bits : UInt64)
  | str (s : Text)
  | broken (s : Bytes)
  | bin (s : Bytes)
  | arr (items : List Object)
  | hash (entries : List (Object × Object))

inductive Failure where
  | noMethod
  | type
  | argument
  | encoding
  | checked (message : Text)
  deriving DecidableEq, Repr

namespace Object

def isNil : Object → Bool
  | .nil => true
  | _ => false

def isInt (n : Int) : Object → Bool
  | .int m => m = n
  | _ => false

def isAscii (b : UInt8) : Bool := b < 128

def utf8 (s : Text) : Bytes := s.flatMap String.utf8EncodeChar

/-- Bytes without an encoding are the key of a text when they are ASCII. -/
def isText (s : Text) : Object → Bool
  | .str t => t = s
  | .bin t => t = utf8 s && t.all isAscii
  | _ => false

def entry (p : Object → Bool) (entries : List (Object × Object)) : Object :=
  ((entries.find? fun e => p e.1).map Prod.snd).getD .nil

/-- The character at the beginning of a string that is not empty; a byte that
begins none is taken alone. -/
def firstChar (s : Bytes) : Object :=
  match s.toByteArray.utf8DecodeChar? 0 with
  | some c => .str [c]
  | none => .broken (s.take 1)

def firstSize (s : Bytes) : Nat := ((s.toByteArray.utf8DecodeChar? 0).map Char.utf8Size).getD 1

def charAt : Nat → Bytes → Object
  | 0, s => if s = [] then .nil else firstChar s
  | n + 1, s => charAt n (s.drop (firstSize s))

/-- `obj[n]`.  Of a number it is a bit. -/
def atIndex (n : Nat) : Object → Except Failure Object
  | .arr items => .ok (items[n]?.getD .nil)
  | .hash entries => .ok (entry (isInt n) entries)
  | .str s => .ok ((s[n]?.map fun c => .str [c]).getD .nil)
  | .broken s => .ok (charAt n s)
  | .bin s => .ok ((s[n]?.map fun b => .bin [b]).getD .nil)
  | .int m => .ok (.int (m / 2 ^ n % 2))
  | .nil | .bool _ | .float _ => .error .noMethod

def isInside [BEq α] (s t : List α) : Bool := t.tails.any fun r => s.isPrefixOf r

/-- `obj[key]`.  Of a text it is the part that is asked for. -/
def atField (key : Text) : Object → Except Failure Object
  | .hash entries => .ok (entry (isText key) entries)
  | .str s => .ok (if isInside key s then .str key else .nil)
  | .broken s => .ok (if isInside (utf8 key) s then .str key else .nil)
  | .bin s =>
    if (utf8 key).all isAscii || s.all isAscii then
      .ok (if isInside (utf8 key) s then .str key else .nil)
    else .error .encoding
  | .arr _ | .int _ => .error .type
  | .nil | .bool _ | .float _ => .error .noMethod

/-- Strings have the method `downcase`, which looks at every character. -/
def downcase : Object → Except Failure Unit
  | .str _ | .bin _ => .ok ()
  | .broken _ => .error .argument
  | _ => .error .noMethod

end Object

end AggregatedLogging.Ruby
