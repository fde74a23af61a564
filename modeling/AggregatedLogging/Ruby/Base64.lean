import AggregatedLogging.Ruby.Json
import AggregatedLogging.Ruby.Object

/-! Base64 on one line, and texts that are not blank. -/
namespace AggregatedLogging.Ruby

open Wire (Bytes)

def base64Alphabet : Text :=
  "ABCDEFGHIJKLMNOPQRSTUVWXYZabcdefghijklmnopqrstuvwxyz0123456789+/".toList

def base64Char (n : Nat) : Char := base64Alphabet.getD (n % 64) 'A'

/-- Three bytes become four characters; what is missing at the end is padded. -/
def strictEncode64 : Bytes → Text
  | [] => []
  | [a] => [base64Char (a.toNat / 4), base64Char (a.toNat % 4 * 16), '=', '=']
  | [a, b] =>
    [base64Char (a.toNat / 4), base64Char (a.toNat % 4 * 16 + b.toNat / 16),
      base64Char (b.toNat % 16 * 4), '=']
  | a :: b :: c :: s =>
    base64Char (a.toNat / 4) :: base64Char (a.toNat % 4 * 16 + b.toNat / 16) ::
      base64Char (b.toNat % 16 * 4 + c.toNat / 64) :: base64Char c.toNat :: strictEncode64 s

example : strictEncode64 (Object.utf8 "light w".toList) = "bGlnaHQgdw==".toList := by
  decide +kernel

def isBlank (s : Text) : Bool := (strip s).isEmpty

theorem isBlank_cons {c : Char} (hc : isSpace c = false) (hnull : c ≠ Char.ofNat 0) (s : Text) :
    isBlank (c :: s) = false := by
  have hdrop : (c :: s).dropWhile isSpace = c :: s :=
    List.dropWhile_cons_of_neg (Bool.eq_false_iff.mp hc)
  rw [isBlank, strip, hdrop, List.isEmpty_eq_false_iff, ne_eq, List.rdropWhile_eq_nil_iff]
  intro h
  have hhead := h c List.mem_cons_self
  rw [hc, Bool.false_or, decide_eq_true_eq] at hhead
  exact hnull hhead

theorem base64Char_not_blank (n : Nat) :
    isSpace (base64Char n) = false ∧ base64Char n ≠ Char.ofNat 0 := by
  have halphabet : ∀ c ∈ base64Alphabet, isSpace c = false ∧ c ≠ Char.ofNat 0 :=
    Text.forall_of_all (by decide)
  have hlength : n % 64 < base64Alphabet.length := Nat.mod_lt n (by decide)
  apply halphabet
  rw [base64Char, List.getD_eq_getElem?_getD, List.getElem?_eq_getElem hlength, Option.getD_some]
  exact List.getElem_mem hlength

theorem strictEncode64_not_blank {s : Bytes} (h : s ≠ []) : isBlank (strictEncode64 s) = false := by
  have hcons (n : Nat) (t : Text) : isBlank (base64Char n :: t) = false :=
    isBlank_cons (base64Char_not_blank n).1 (base64Char_not_blank n).2 t
  rcases s with _ | ⟨a, _ | ⟨b, _ | ⟨c, s⟩⟩⟩
  · contradiction
  · exact hcons _ _
  · exact hcons _ _
  · exact hcons _ _

end AggregatedLogging.Ruby
