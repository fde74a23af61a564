import AggregatedLogging.Shell
import Mathlib.Data.Nat.Init

/-! Arithmetic of the shell: integers of 64 bits that wrap around, constants whose first digit
tells their base, and a command that fails when its value is zero. -/
namespace AggregatedLogging.Shell

section Integers

def wrap (n : Int) : Int :=
  (n + 9223372036854775808) % 18446744073709551616 - 9223372036854775808

variable {a b : Int}

theorem fits_wrap (a : Int) : fits (wrap a) = true := by
  rw [fits_eq_true, wrap]
  omega

theorem wrap_eq_self (h : fits a = true) : wrap a = a := by
  rw [fits_eq_true] at h
  rw [wrap]
  omega

theorem wrap_add_range (a k : Int) : wrap (a + 18446744073709551616 * k) = wrap a := by
  rw [wrap, wrap]
  omega

theorem exists_wrap (a : Int) : ∃ k, wrap a = a + 18446744073709551616 * k := by
  refine ⟨-((a + 9223372036854775808) / 18446744073709551616), ?_⟩
  rw [wrap]
  omega

theorem wrap_add_wrap (a b : Int) : wrap (wrap a + b) = wrap (a + b) := by
  rw [wrap, wrap, wrap]
  omega

theorem wrap_mul_wrap (a b : Int) : wrap (wrap a * b) = wrap (a * b) := by
  obtain ⟨k, hk⟩ := exists_wrap a
  have hproduct : wrap a * b = a * b + 18446744073709551616 * (k * b) := by
    rw [hk, Int.add_mul, Int.mul_assoc]
  rw [hproduct, wrap_add_range]

end Integers

section Constants

def valueOf (base : Nat) (w : Text) : Nat := Nat.ofDigitChars base w 0

/-- Digits behind a zero are octal, and 8 and 9 are an error there. -/
def constant? (w : Text) : Option Int :=
  if w.head? = some '0' then
    if w.all fun c => c ≠ '8' && c ≠ '9' then some (wrap (valueOf 8 w)) else none
  else some (wrap (valueOf 10 w))

def decimal (n : Int) : Text :=
  if n < 0 then '-' :: Nat.toDigits 10 n.natAbs else Nat.toDigits 10 n.natAbs

theorem valueOf_octal_le (w : Text) : valueOf 8 w ≤ valueOf 10 w := by
  have hfold : ∀ m n, m ≤ n → Nat.ofDigitChars 8 w m ≤ Nat.ofDigitChars 10 w n := by
    induction w with
    | nil =>
      intro m n h
      rw [Nat.ofDigitChars_nil, Nat.ofDigitChars_nil]
      exact h
    | cons c w ih =>
      intro m n h
      rw [Nat.ofDigitChars_cons, Nat.ofDigitChars_cons]
      apply ih
      omega
  exact hfold 0 0 (Nat.le_refl 0)

theorem constant?_plain {w : Text} (h : w.head? ≠ some '0') :
    constant? w = some (wrap (valueOf 10 w)) := by
  rw [constant?, if_neg h]

theorem fits_of_le {m n : Nat} (h : m ≤ n) (hn : fits n = true) : fits m = true := by
  obtain ⟨-, hupper⟩ := fits_eq_true.mp hn
  have hle : (m : Int) ≤ n := Int.ofNat_le.mpr h
  have hlower : (0 : Int) ≤ m := Int.natCast_nonneg m
  exact fits_eq_true.mpr ⟨by omega, Int.lt_of_le_of_lt hle hupper⟩

theorem constant?_le {w : Text} {n : Int} (h : constant? w = some n)
    (hw : fits (valueOf 10 w) = true) : ∃ m : Nat, n = m ∧ m ≤ valueOf 10 w := by
  rw [constant?] at h
  split at h
  · split at h
    · have hn := Option.some.inj h
      rw [wrap_eq_self (fits_of_le (valueOf_octal_le w) hw)] at hn
      exact ⟨valueOf 8 w, hn.symm, valueOf_octal_le w⟩
    · exact absurd h (Option.some_ne_none n).symm
  · rw [wrap_eq_self hw] at h
    exact ⟨_, (Option.some.inj h).symm, Nat.le_refl _⟩

theorem toDigits_head (n : Nat) : (Nat.toDigits 10 (n + 1)).head? ≠ some '0' := by
  have hdigit : ∀ d < 9, [Nat.digitChar (d + 1)].head? ≠ some '0' := by decide
  induction n using Nat.strong_induction_on with
  | h n ih =>
    by_cases hn : n + 1 < 10
    · rw [Nat.toDigits_of_lt_base hn]
      exact hdigit n (by omega)
    · obtain ⟨m, hm⟩ : ∃ m, (n + 1) / 10 = m + 1 := ⟨(n + 1) / 10 - 1, by omega⟩
      have hsplit : Nat.toDigits 10 (n + 1) =
          Nat.toDigits 10 (m + 1) ++ Nat.toDigits 10 ((n + 1) % 10) := by
        rw [Nat.toDigits_append_toDigits (by decide) (by omega) (Nat.mod_lt _ (by decide)), ← hm,
          Nat.div_add_mod]
      obtain ⟨c, w, hw⟩ := List.exists_cons_of_ne_nil (Nat.toDigits_ne_nil (n := m + 1) (b := 10))
      have hhead := ih m (by omega)
      rw [hw] at hhead
      rw [hsplit, hw]
      exact hhead

theorem constant?_toDigits {n : Nat} (hn : fits n = true) :
    constant? (Nat.toDigits 10 n) = some (n : Int) := by
  cases n with
  | zero => decide +kernel
  | succ n =>
    rw [constant?_plain (toDigits_head n), valueOf, Nat.ofDigitChars_ten_toDigits, wrap_eq_self hn]

end Constants

section Commands

/-- What `[` takes for an integer: it has 64 bits, with a sign or without. -/
def operand? : Text → Option Int
  | '+' :: w => ((natural? w).map Int.ofNat).filter fits
  | w => (integer? w).filter fits

/-- `[ v OP w ]`, which fails on what is no integer. -/
def compares (op : Int → Int → Bool) : Option Int → Option Int → Bool
  | some a, some b => op a b
  | _, _ => false

variable {α β : Type}

theorem ok_bind (a : α) (f : α → Except Nat β) : (Except.ok a >>= f) = f a := rfl

theorem error_bind (n : Nat) (f : α → Except Nat β) : (Except.error n >>= f) = .error n := rfl

/-- `((v = e))`: it fails when the expression is in error, and when its value is zero. -/
def assigned : Option Int → Except Nat Int
  | some n => if n = 0 then .error 1 else .ok n
  | none => .error 1

end Commands

end AggregatedLogging.Shell
