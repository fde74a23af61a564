import AggregatedLogging.ShellArithmetic

/-! Memory limits, as the start scripts read them: digits and a unit. -/
namespace AggregatedLogging.MemoryLimit

open Shell

inductive MemUnit where
  | meg
  | gig
  deriving DecidableEq, Repr

def bytesPerMeg : Nat := 1024 * 1024
def bytesPerGig : Nat := 1024 * bytesPerMeg

def MemUnit.bytes : MemUnit → Nat
  | .meg => bytesPerMeg
  | .gig => bytesPerGig

/-- `[GgMm]` -/
def unit? (c : Char) : Option MemUnit :=
  if c = 'G' ∨ c = 'g' then some .gig
  else if c = 'M' ∨ c = 'm' then some .meg
  else none

/-- `([GgMm])?i?$` -/
def suffix? : Text → Option (Option MemUnit)
  | [] => some none
  | ['i'] => some none
  | [c] => (unit? c).map some
  | [c, 'i'] => (unit? c).map some
  | _ => none

/-- `^([[:digit:]]+)([GgMm])?i?$`, with the two groups. -/
def limit? (s : Text) : Option (Text × Option MemUnit) :=
  if s.takeWhile Char.isDigit = [] then none
  else (suffix? (s.dropWhile Char.isDigit)).map fun u => (s.takeWhile Char.isDigit, u)

/-- The number in front of the unit, as a human reads it. -/
def amount (num : Text) : Nat := valueOf 10 num

theorem limit?_written {num rest : Text} {u : Option MemUnit} (hnum : num ≠ [])
    (hdigits : num.all Char.isDigit = true) (hrest : ∀ c, rest.head? = some c → c.isDigit = false)
    (hu : suffix? rest = some u) : limit? (num ++ rest) = some (num, u) := by
  have hdigits := List.all_eq_true.mp hdigits
  have htake : (num ++ rest).takeWhile Char.isDigit = num := by
    rw [List.takeWhile_append_of_pos hdigits]
    cases rest with
    | nil => exact List.append_nil num
    | cons c rest =>
      rw [List.takeWhile_cons_of_neg, List.append_nil]
      rw [hrest c rfl]
      exact Bool.false_ne_true
  have hdrop : (num ++ rest).dropWhile Char.isDigit = rest := by
    rw [List.dropWhile_append_of_pos hdigits]
    cases rest with
    | nil => rfl
    | cons c rest =>
      rw [List.dropWhile_cons_of_neg]
      rw [hrest c rfl]
      exact Bool.false_ne_true
  rw [limit?, htake, hdrop, if_neg hnum, hu, Option.map_some]

end AggregatedLogging.MemoryLimit
