import AggregatedLogging.Regex.Scanning

/-! Quoting a text for use inside a pattern. -/
namespace AggregatedLogging.Regex

/-- Everything but ASCII letters and digits gets a backslash; the null character
has a spelling of its own. -/
def escapeChar (c : Char) : Text :=
  if c.isAlphanum then [c]
  else if c = Char.ofNat 0 then ['\\', '0', '0', '0']
  else ['\\', c]

def escape (s : Text) : Text := s.flatMap escapeChar

theorem simpleToken_of_alphanum {c : Char} (h : c.isAlphanum = true) :
    simpleToken c = .item (.lit c) := by
  unfold simpleToken
  split <;> first | rfl | exact absurd h (by decide)

theorem scanChar_of_alphanum (d : Dialect) {c : Char} (h : c.isAlphanum = true) (s : Text) :
    scanChar d c s = some ([.item (.lit c)], s) := by
  have hne (x : Char) (hx : x.isAlphanum = false) : c ≠ x := by
    rintro rfl
    simp [hx] at h
  unfold scanChar
  rw [if_neg (hne '\\' (by decide)), if_neg (hne '[' (by decide)), if_neg (hne '(' (by decide)),
    if_neg (hne '{' (by decide)), if_neg (hne '*' (by decide)), if_neg (hne '+' (by decide)),
    if_neg (hne '?' (by decide)), simpleToken_of_alphanum h]

theorem scanEscape_of_not_alphanum {c : Char} (h : c.isAlphanum = false) (s : Text) :
    scanEscape (c :: s) = some (.item (.lit c), s) := by
  have hne (x : Char) (hx : x.isAlphanum = true) : c ≠ x := by
    rintro rfl
    simp [hx] at h
  have hanchor : anchorEscape c = none := by
    unfold anchorEscape
    split <;> first | rfl | exact absurd h (by decide)
  have hclass : classEscape c = none := by
    unfold classEscape
    split <;> first | rfl | exact absurd h (by decide)
  have hcontrol : controlEscape c = none := by
    unfold controlEscape
    split <;> first | rfl | exact absurd h (by decide)
  have hdigit : c.isDigit = false := by
    cases hd : c.isDigit
    · rfl
    · simp [Char.isAlphanum, hd] at h
  simp only [scanEscape, hanchor, hclass, hcontrol, scanOtherEscape, hne 'x' (by decide),
    hne '0' (by decide), hdigit, ↓reduceIte, Bool.false_eq_true]

theorem scanToken_escapeChar (d : Dialect) (c : Char) (s : Text) :
    scanToken d false (escapeChar c ++ s) = some ([.item (.lit c)], s) := by
  unfold escapeChar
  split
  · rename_i h
    exact scanChar_of_alphanum d h s
  · rename_i h
    split
    · rename_i h0
      subst h0
      rfl
    · have := scanEscape_of_not_alphanum (by simpa using h) s
      simp [scanToken, scanChar, this]

theorem scans_escape (d : Dialect) (s r : Text) :
    Scans d false (escape s ++ r) (s.map fun c => .item (.lit c)) r := by
  induction s with
  | nil => exact .done
  | cons c s ih =>
    simp only [escape, List.flatMap_cons, List.append_assoc, List.map_cons]
    exact .step (scanToken_escapeChar d c _) ih

def isQuoted (c : Char) : Bool := "[]{}()|-*.\\?+^$# ".toList.contains c

/-- Ruby leaves other characters as they are, and blanks have letters. -/
def quoteChar (c : Char) : Text :=
  if c = '\n' then ['\\', 'n']
  else if c = '\t' then ['\\', 't']
  else if c = '\r' then ['\\', 'r']
  else if c = Char.ofNat 12 then ['\\', 'f']
  else if c = Char.ofNat 11 then ['\\', 'v']
  else if isQuoted c then ['\\', c]
  else [c]

def quote (s : Text) : Text := s.flatMap quoteChar

theorem scanChar_of_not_quoted (d : Dialect) {c : Char} (h : isQuoted c = false) (s : Text) :
    scanChar d c s = some ([.item (.lit c)], s) := by
  have hne (x : Char) (hx : isQuoted x = true) : c ≠ x := by
    rintro rfl
    rw [h] at hx
    contradiction
  have hsimple : simpleToken c = .item (.lit c) := by
    unfold simpleToken
    split <;> first | rfl | exact absurd h (by decide)
  unfold scanChar
  rw [if_neg (hne '\\' (by decide)), if_neg (hne '[' (by decide)), if_neg (hne '(' (by decide)),
    if_neg (hne '{' (by decide)), if_neg (hne '*' (by decide)), if_neg (hne '+' (by decide)),
    if_neg (hne '?' (by decide)), hsimple]

theorem scanToken_quoteChar (d : Dialect) (c : Char) (s : Text) :
    scanToken d false (quoteChar c ++ s) = some ([.item (.lit c)], s) := by
  have halphanum (h : isQuoted c = true) : c.isAlphanum = false := by
    have hall : ("[]{}()|-*.\\?+^$# ".toList.all fun x => x.isAlphanum = false) = true := by decide
    exact of_decide_eq_true (List.all_eq_true.mp hall c (List.contains_iff_mem.mp h))
  unfold quoteChar
  by_cases hbreak : c = '\n'
  · subst hbreak
    rfl
  by_cases htab : c = '\t'
  · subst htab
    rfl
  by_cases hreturn : c = '\r'
  · subst hreturn
    rfl
  by_cases hfeed : c = Char.ofNat 12
  · subst hfeed
    rfl
  by_cases hvertical : c = Char.ofNat 11
  · subst hvertical
    rfl
  rw [if_neg hbreak, if_neg htab, if_neg hreturn, if_neg hfeed, if_neg hvertical]
  cases hquoted : isQuoted c with
  | true =>
    have := scanEscape_of_not_alphanum (halphanum hquoted) s
    simp [scanToken, scanChar, this]
  | false => exact scanChar_of_not_quoted d hquoted s

theorem scans_quote (d : Dialect) (s r : Text) :
    Scans d false (quote s ++ r) (s.map fun c => .item (.lit c)) r := by
  induction s with
  | nil => exact .done
  | cons c s ih =>
    simp only [quote, List.flatMap_cons, List.append_assoc, List.map_cons]
    exact .step (scanToken_quoteChar d c _) ih

end AggregatedLogging.Regex
