import AggregatedLogging.MemoryLimit

/-! The heap that the start script of Kibana asks for: half of the memory limit, which is halved
before it is scaled by its unit. -/
namespace AggregatedLogging.Kibana

open Shell
open MemoryLimit

section Script

def defaultMin : Int := 128 * bytesPerMeg

/-- Without a unit the number is in bytes. -/
def scaled (num : Int) : Option MemUnit → Except Nat Int
  | some unit => assigned (some (wrap (num * unit.bytes)))
  | none => .ok num

def raised (num : Int) : Except Nat Int :=
  if num < defaultMin then assigned (some defaultMin) else .ok num

/-- The script up to `NODE_OPTIONS`, with the number of megabytes in `--max_old_space_size`. -/
def setNodeOptions (kibanaMemoryLimit : Text) : Except Nat (Option Int) :=
  match limit? (if kibanaMemoryLimit = [] then "736M".toList else kibanaMemoryLimit) with
  | none => .error 1
  | some (num, unit) =>
    match constant? num with
    -- `$((num/2))` is in error: the shell leaves the whole `if`, and the script goes on behind it
    | none => .ok none
    | some num => do
      let num ← scaled (num.tdiv 2) unit
      let num ← raised num
      return some (num.tdiv bytesPerMeg)

end Script

section Claim

def unitBytes : Option MemUnit → Nat
  | some unit => unit.bytes
  | none => 1

/-- A limit that is accepted and below 2^63 bytes. -/
structure Limit where
  text : Text
  num : Text
  unit : Option MemUnit
  accepted : limit? text = some (num, unit)
  below : amount num * unitBytes unit < 9223372036854775808

namespace Limit

def bytes (l : Limit) : Nat := amount l.num * unitBytes l.unit

/-- Half of the limit in full megabytes, and no less than the default. -/
def heap (l : Limit) : Int := ((max (128 * bytesPerMeg) (l.bytes / 2) / bytesPerMeg : Nat) : Int)

/-- The shell reads the digits (octal behind a zero) and half of them is what is meant: with
gigabytes the number is read as it is written, and it is even; with megabytes its half is not zero
and the difference is lost in the default or in rounding; with bytes it is lost there, too. -/
def Halves (l : Limit) : Prop :=
  ∃ n : Nat, constant? l.num = some (n : Int) ∧
    match l.unit with
    | some .gig => n = amount l.num ∧ n % 2 = 0 ∧ n ≠ 0
    | some .meg => 2 ≤ n ∧ (amount l.num / 2 ≤ 128 ∨ n / 2 = amount l.num / 2)
    | none => amount l.num / 2 / bytesPerMeg ≤ 128 ∨
        n / 2 / bytesPerMeg = amount l.num / 2 / bytesPerMeg

end Limit

end Claim

section Heap

variable {n : Nat}

theorem limit_ne_nil (l : Limit) : l.text ≠ [] := by
  intro h
  have haccepted := l.accepted
  rw [h] at haccepted
  contradiction

theorem raised_eq (n : Int) : raised n = .ok (max defaultMin n) := by
  rw [raised]
  split
  · rename_i hlt
    rw [Int.max_eq_left (Int.le_of_lt hlt)]
    rfl
  · rename_i hge
    rw [Int.max_eq_right (Int.not_lt.mp hge)]

theorem half_fits (l : Limit) (hn : n ≤ amount l.num) :
    fits ((n / 2 * unitBytes l.unit : Nat) : Int) = true := by
  have hbelow := l.below
  have hle : n / 2 * unitBytes l.unit ≤ amount l.num * unitBytes l.unit :=
    Nat.mul_le_mul_right _ (Nat.le_trans (Nat.div_le_self n 2) hn)
  rw [fits_eq_true]
  omega

theorem amount_fits (l : Limit) : fits (amount l.num : Int) = true := by
  have hbelow := l.below
  have hpos : 0 < unitBytes l.unit := by
    cases l.unit with
    | none => decide
    | some unit =>
      cases unit with
      | meg => decide
      | gig => decide
  have hle : amount l.num ≤ amount l.num * unitBytes l.unit := Nat.le_mul_of_pos_right _ hpos
  rw [fits_eq_true]
  omega

theorem scaled_eq (l : Limit) (hn : n ≤ amount l.num) :
    scaled ((n / 2 : Nat) : Int) l.unit =
      if l.unit ≠ none ∧ n / 2 = 0 then .error 1
      else .ok ((n / 2 * unitBytes l.unit : Nat) : Int) := by
  have hfits := half_fits l hn
  cases hunit : l.unit with
  | none =>
    rw [if_neg fun h => h.1 rfl, scaled, unitBytes, Nat.mul_one]
  | some unit =>
    rw [hunit] at hfits
    have hpos : 0 < unit.bytes := by
      cases unit with
      | meg => decide
      | gig => decide
    rw [scaled, ← Int.natCast_mul]
    change assigned (some (wrap ((n / 2 * unitBytes (some unit) : Nat) : Int))) = _
    rw [wrap_eq_self hfits, assigned, unitBytes]
    by_cases hzero : n / 2 = 0
    · have hnone : ((n / 2 * unit.bytes : Nat) : Int) = 0 := by
        rw [hzero, Nat.zero_mul]
        rfl
      rw [if_pos hnone, if_pos ⟨Option.some_ne_none unit, hzero⟩]
    · have hne : ((n / 2 * unit.bytes : Nat) : Int) ≠ 0 :=
        Int.natCast_ne_zero.mpr (Nat.mul_ne_zero hzero (Nat.ne_of_gt hpos))
      rw [if_neg hne, if_neg fun h => hzero h.2]

/-- The half is scaled; half of nothing ends the script when there is a unit. -/
theorem setNodeOptions_eq (l : Limit) (hread : constant? l.num = some (n : Int))
    (hn : n ≤ amount l.num) :
    setNodeOptions l.text =
      if l.unit ≠ none ∧ n / 2 = 0 then .error 1
      else .ok (some ((max (128 * bytesPerMeg) (n / 2 * unitBytes l.unit) / bytesPerMeg : Nat) :
        Int)) := by
  have hhalf : (n : Int).tdiv 2 = ((n / 2 : Nat) : Int) := rfl
  rw [setNodeOptions, if_neg (limit_ne_nil l), l.accepted]
  dsimp only
  rw [hread]
  dsimp only
  rw [hhalf, scaled_eq l hn]
  by_cases hnone : l.unit ≠ none ∧ n / 2 = 0
  · rw [if_pos hnone, if_pos hnone, error_bind]
  · have hmax : max defaultMin ((n / 2 * unitBytes l.unit : Nat) : Int) =
        ((max (128 * bytesPerMeg) (n / 2 * unitBytes l.unit) : Nat) : Int) := by
      rw [defaultMin, bytesPerMeg]
      omega
    rw [if_neg hnone, if_neg hnone, ok_bind, raised_eq, ok_bind, hmax]
    rfl

/-- A number that the shell cannot read leaves Kibana without the option. -/
theorem setNodeOptions_unread (l : Limit) (hread : constant? l.num = none) :
    setNodeOptions l.text = .ok none := by
  rw [setNodeOptions, if_neg (limit_ne_nil l), l.accepted]
  dsimp only
  rw [hread]

end Heap

section Outcome

variable {l : Limit} {n : Nat}

theorem constant_le (l : Limit) {k : Int} (h : constant? l.num = some k) :
    ∃ n : Nat, k = n ∧ n ≤ amount l.num :=
  constant?_le h (amount_fits l)

theorem heap_eq_iff (hread : constant? l.num = some (n : Int)) (hn : n ≤ amount l.num) :
    setNodeOptions l.text = .ok (some l.heap) ↔ l.Halves := by
  have hhalves : l.Halves ↔
      match l.unit with
      | some .gig => n = amount l.num ∧ n % 2 = 0 ∧ n ≠ 0
      | some .meg => 2 ≤ n ∧ (amount l.num / 2 ≤ 128 ∨ n / 2 = amount l.num / 2)
      | none => amount l.num / 2 / bytesPerMeg ≤ 128 ∨
          n / 2 / bytesPerMeg = amount l.num / 2 / bytesPerMeg := by
    constructor
    · rintro ⟨m, hm, hcases⟩
      rw [hread] at hm
      rw [Int.ofNat.inj (Option.some.inj hm)]
      exact hcases
    · intro hcases
      exact ⟨n, hread, hcases⟩
  rw [hhalves, setNodeOptions_eq l hread hn, Limit.heap, Limit.bytes]
  cases hunit : l.unit with
  | none =>
    rw [if_neg fun h => h.1 rfl, Except.ok.injEq, Option.some_inj, Int.ofNat_inj, unitBytes]
    dsimp only
    rw [bytesPerMeg]
    omega
  | some unit =>
    by_cases hzero : n / 2 = 0
    · rw [if_pos ⟨Option.some_ne_none unit, hzero⟩]
      apply iff_of_false
      · intro h
        cases h
      · cases unit with
        | meg =>
          dsimp only
          omega
        | gig =>
          dsimp only
          omega
    · rw [if_neg fun h => hzero h.2, Except.ok.injEq, Option.some_inj, Int.ofNat_inj]
      cases unit with
      | meg =>
        rw [unitBytes, MemUnit.bytes, bytesPerMeg]
        dsimp only
        omega
      | gig =>
        rw [unitBytes, MemUnit.bytes, bytesPerGig, bytesPerMeg]
        dsimp only
        omega

theorem heap_mono {l m : Limit} (h : l.bytes ≤ m.bytes) : l.heap ≤ m.heap := by
  rw [Limit.heap, Limit.heap, bytesPerMeg]
  omega

/-- The heap is the one that is meant exactly when the half of what the shell reads is, and on such
limits a larger one gives no smaller heap. -/
theorem heap_iff (l : Limit) :
    (setNodeOptions l.text = .ok (some l.heap) ↔ l.Halves) ∧
      ∀ m : Limit, l.Halves → m.Halves → l.bytes ≤ m.bytes →
        ∃ a b, setNodeOptions l.text = .ok (some a) ∧ setNodeOptions m.text = .ok (some b) ∧
          a ≤ b := by
  have hexact (l : Limit) : setNodeOptions l.text = .ok (some l.heap) ↔ l.Halves := by
    cases hread : constant? l.num with
    | none =>
      apply iff_of_false
      · intro h
        rw [setNodeOptions_unread l hread] at h
        cases h
      · rintro ⟨n, hn, -⟩
        rw [hread] at hn
        cases hn
    | some k =>
      obtain ⟨n, hk, hn⟩ := constant_le l hread
      rw [hk] at hread
      exact heap_eq_iff hread hn
  refine ⟨hexact l, ?_⟩
  intro m hl hm hbytes
  exact ⟨l.heap, m.heap, (hexact l).mpr hl, (hexact m).mpr hm, heap_mono hbytes⟩

def oneGig : Limit where
  text := "1G".toList
  num := "1".toList
  unit := some .gig
  accepted := rfl
  below := by decide

theorem not_heap_oneGig : setNodeOptions oneGig.text ≠ .ok (some oneGig.heap) := by
  have hrun : setNodeOptions oneGig.text = .error 1 := by decide +kernel
  rw [hrun]
  intro h
  cases h

end Outcome

end AggregatedLogging.Kibana
