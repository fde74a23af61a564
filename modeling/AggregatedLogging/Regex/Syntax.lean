import AggregatedLogging.Text

/-! Regular expressions of the backtracking family, in the syntax documented
for Python's `re` and the part of it that Ruby shares.  A pattern is read in
two stages: a scanner that cuts the text into tokens, and a builder that folds
the tokens into a tree while it numbers the capturing groups. -/
namespace AggregatedLogging.Regex

/-- The two dialects differ in the meaning of a bare `^` and `$`, in the
spelling of named groups and in the limit on capturing groups. -/
inductive Dialect where
  | python
  | ruby
  deriving DecidableEq, Repr

/-- Inline flags hold for the whole pattern, wherever they are written. -/
structure Flags where
  ignoreCase : Bool := false
  locale : Bool := false
  multiline : Bool := false
  dotAll : Bool := false
  unicode : Bool := false
  verbose : Bool := false
  deriving DecidableEq, Repr

def Flags.union (a b : Flags) : Flags where
  ignoreCase := a.ignoreCase || b.ignoreCase
  locale := a.locale || b.locale
  multiline := a.multiline || b.multiline
  dotAll := a.dotAll || b.dotAll
  unicode := a.unicode || b.unicode
  verbose := a.verbose || b.verbose

/-- In Ruby `^` and `$` always work line by line. -/
def Dialect.flags : Dialect → Flags
  | .python => {}
  | .ruby => { multiline := true }

inductive ClassItem where
  | one (c : Char)
  | range (lo hi : Char)
  | digit (negated : Bool)
  | space (negated : Bool)
  | word (negated : Bool)
  deriving DecidableEq, Repr

inductive Anchor where
  | lineStart
  | lineEnd
  | textStart
  | textEnd
  | wordEdge (negated : Bool)
  deriving DecidableEq, Repr

inductive Atom where
  | lit (c : Char)
  | dot
  | cls (negated : Bool) (items : List ClassItem)
  | at (anchor : Anchor)
  deriving DecidableEq, Repr

/-- The tree of a pattern.  Capturing groups carry the number given to them by
the builder, counted from one in the order of their opening parentheses. -/
inductive Node where
  | empty
  | atom (a : Atom)
  | seq (a b : Node)
  | alt (a b : Node)
  | capture (index : Nat) (a : Node)
  | ref (index : Nat)
  | rep (lo : Nat) (hi : Option Nat) (greedy : Bool) (a : Node)
  | ahead (negated : Bool) (a : Node)
  | behind (negated : Bool) (a : Node)
  | cond (index : Nat) (yes no : Node)
  deriving DecidableEq, Repr

inductive Opening where
  | capture (name : Option Text)
  | plain
  | ahead (negated : Bool)
  | behind (negated : Bool)
  | condNumber (index : Nat)
  | condName (name : Text)
  deriving DecidableEq, Repr

inductive Token where
  | item (a : Atom)
  | ref (index : Nat)
  | refName (name : Text)
  | quant (lo : Nat) (hi : Option Nat) (greedy : Bool)
  | bar
  | opening (how : Opening)
  | close
  | flags (fl : Flags)
  deriving DecidableEq, Repr

def Token.numbered : Token → Bool
  | .ref _ => true
  | .opening (.condNumber _) => true
  | _ => false

def isOctal (c : Char) : Bool := '0' ≤ c && c ≤ '7'

def hexValue (c : Char) : Option Nat :=
  if c.isDigit then some (c.toNat - '0'.toNat)
  else if 'a' ≤ c && c ≤ 'f' then some (c.toNat - 'a'.toNat + 10)
  else if 'A' ≤ c && c ≤ 'F' then some (c.toNat - 'A'.toNat + 10)
  else none

def number (base : Nat) (digits : Text) : Nat :=
  digits.foldl (fun n c => n * base + (c.toNat - '0'.toNat)) 0

def isName : Text → Bool
  | [] => false
  | c :: s => (c.isAlpha || c = '_') && s.all fun c => c.isAlphanum || c = '_'

def takeUntil (stop : Char) : Text → Option (Text × Text)
  | [] => none
  | c :: s =>
    if c = stop then some ([], s)
    else (takeUntil stop s).map fun p => (c :: p.1, p.2)

/-- Escapes with the same meaning inside and outside of a character class. -/
def controlEscape : Char → Option Char
  | 'a' => some (Char.ofNat 7)
  | 'f' => some (Char.ofNat 12)
  | 'n' => some '\n'
  | 'r' => some '\r'
  | 't' => some '\t'
  | 'v' => some (Char.ofNat 11)
  | _ => none

def classEscape : Char → Option ClassItem
  | 'd' => some (.digit false)
  | 'D' => some (.digit true)
  | 's' => some (.space false)
  | 'S' => some (.space true)
  | 'w' => some (.word false)
  | 'W' => some (.word true)
  | _ => none

def anchorEscape : Char → Option Anchor
  | 'A' => some .textStart
  | 'Z' => some .textEnd
  | 'b' => some (.wordEdge false)
  | 'B' => some (.wordEdge true)
  | _ => none

def onHead (x : Char) (f g : Text → β) (s : Text) : β :=
  if s.head? = some x then f s.tail else g s

def scanHexDigit : Text → Option (Nat × Text)
  | [] => none
  | c :: s => (hexValue c).map fun n => (n, s)

def scanHex (s : Text) : Option (Char × Text) :=
  (scanHexDigit s).bind fun a =>
    (scanHexDigit a.2).map fun b => (Char.ofNat (16 * a.1 + b.1), b.2)

def takeOctal : Nat → Text → Text × Text
  | 0, s => ([], s)
  | _ + 1, [] => ([], [])
  | n + 1, c :: s =>
    if isOctal c then (c :: (takeOctal n s).1, (takeOctal n s).2) else ([], c :: s)

def byte (n : Nat) : Char := Char.ofNat (n % 256)

/-- A decimal escape is an octal character when it has three octal digits, and
a reference to a group otherwise. -/
def scanDecimal (a : Char) : Text → Token × Text
  | b :: c :: s =>
    if isOctal a && isOctal b && isOctal c then (.item (.lit (byte (number 8 [a, b, c]))), s)
    else if b.isDigit then (.ref (number 10 [a, b]), c :: s)
    else (.ref (number 10 [a]), b :: c :: s)
  | [b] => if b.isDigit then (.ref (number 10 [a, b]), []) else (.ref (number 10 [a]), [b])
  | [] => (.ref (number 10 [a]), [])

/-- An escape whose letter has no meaning of its own. -/
def scanOtherEscape (c : Char) (s : Text) : Option (Token × Text) :=
  if c = 'x' then (scanHex s).map fun p => (.item (.lit p.1), p.2)
  else if c = '0' then
    some (.item (.lit (byte (number 8 (takeOctal 2 s).1))), (takeOctal 2 s).2)
  else if c.isDigit then some (scanDecimal c s)
  else some (.item (.lit c), s)

def scanEscape : Text → Option (Token × Text)
  | [] => none
  | c :: s =>
    match anchorEscape c, classEscape c, controlEscape c with
    | some a, _, _ => some (.item (.at a), s)
    | _, some i, _ => some (.item (.cls false [i]), s)
    | _, _, some e => some (.item (.lit e), s)
    | none, none, none => scanOtherEscape c s

def scanMemberEscape : Text → Option (ClassItem × Text)
  | [] => none
  | c :: s =>
    match classEscape c, controlEscape c with
    | some i, _ => some (i, s)
    | _, some e => some (.one e, s)
    | none, none =>
      if c = 'b' then some (.one (Char.ofNat 8), s)
      else if c = 'x' then (scanHex s).map fun p => (.one p.1, p.2)
      else if isOctal c then
        some (.one (byte (number 8 (c :: (takeOctal 2 s).1))), (takeOctal 2 s).2)
      else if c.isDigit then none
      else some (.one c, s)

def scanMember : Text → Option (ClassItem × Text)
  | [] => none
  | c :: s => if c = '\\' then scanMemberEscape s else some (.one c, s)

def rangeItem : ClassItem → ClassItem → Option ClassItem
  | .one lo, .one hi => if hi < lo then none else some (.range lo hi)
  | _, _ => none

/-- The members of a class up to its bracket; a bracket in the first place is
a member.  `fuel` bounds the number of members by the length of the text. -/
def scanMembers : (fuel : Nat) → (first : Bool) → Text → Option (List ClassItem × Text)
  | 0, _, _ => none
  | fuel + 1, first, s =>
    if !first && s.head? = some ']' then some ([], s.tail)
    else (scanMember s).bind fun a =>
      onHead '-'
        (onHead ']' (fun r => some ([a.1, .one '-'], r)) fun r =>
          (scanMember r).bind fun b =>
            (rangeItem a.1 b.1).bind fun i =>
              (scanMembers fuel false b.2).map fun p => (i :: p.1, p.2))
        (fun r => (scanMembers fuel false r).map fun p => (a.1 :: p.1, p.2)) a.2

def scanClassBody (fuel : Nat) : Text → Option (Token × Text) :=
  onHead '^' (fun s => (scanMembers fuel true s).map fun p => (.item (.cls true p.1), p.2))
    fun s => (scanMembers fuel true s).map fun p => (.item (.cls false p.1), p.2)

def scanClass (s : Text) : Option (Token × Text) := scanClassBody s.length s

def scanLazy (lo : Nat) (hi : Option Nat) : Text → Option (Token × Text) :=
  onHead '?' (fun s => some (.quant lo hi false, s)) fun s => some (.quant lo hi true, s)

/-- The digits of an interval up to its closing brace: those of the lower bound,
and those of the upper bound when there is a comma. -/
def scanBounds (s : Text) : Option ((Text × Option Text) × Text) :=
  onHead '}' (fun r => some ((s.takeWhile Char.isDigit, none), r))
    (onHead ','
      (fun r => onHead '}'
        (fun q => some ((s.takeWhile Char.isDigit, some (r.takeWhile Char.isDigit)), q))
        (fun _ => none) (r.dropWhile Char.isDigit))
      fun _ => none)
    (s.dropWhile Char.isDigit)

/-- Without a comma both bounds are the same; behind a comma no digits mean no
bound. -/
def intervalBounds : Text × Option Text → Nat × Option Nat
  | (lo, none) => (number 10 lo, some (number 10 lo))
  | (lo, some []) => (number 10 lo, none)
  | (lo, some hi) => (number 10 lo, some (number 10 hi))

/-- The text after an opening brace, which stands for itself unless a complete
interval follows. -/
def scanBrace (s : Text) : Option (Token × Text) :=
  match scanBounds s with
  | none => some (.item (.lit '{'), s)
  | some (b, r) =>
    if b = ([], none) then some (.item (.lit '{'), s)
    else if (intervalBounds b).2.any (· < (intervalBounds b).1) then none
    else scanLazy (intervalBounds b).1 (intervalBounds b).2 r

/-- The text after `(?#`, up to the closing parenthesis; an escaped character is
skipped whole. -/
def skipComment : Text → Option Text
  | [] => none
  | c :: s =>
    if c = ')' then some s
    else if c = '\\' then
      match s with
      | [] => none
      | _ :: s => skipComment s
    else skipComment s

def flagLetter : Char → Option Flags
  | 'i' => some { ignoreCase := true }
  | 'L' => some { locale := true }
  | 'm' => some { multiline := true }
  | 's' => some { dotAll := true }
  | 'u' => some { unicode := true }
  | 'x' => some { verbose := true }
  | _ => none

def scanFlags : Text → Option (Flags × Text)
  | [] => none
  | c :: s =>
    (flagLetter c).bind fun f =>
      if s.head? = some ')' then some (f, s.tail)
      else (scanFlags s).map fun p => (f.union p.1, p.2)

def scanName (stop : Char) (token : Text → Token) (s : Text) : Option (List Token × Text) :=
  (takeUntil stop s).bind fun p => if isName p.1 then some ([token p.1], p.2) else none

/-- The condition of a conditional group is a name or a number; number zero
makes it a plain group. -/
def conditionToken (name : Text) : Option Token :=
  if isName name then some (.opening (.condName name))
  else if name ≠ [] ∧ name.all Char.isDigit then
    if number 10 name = 0 then some (.opening .plain)
    else some (.opening (.condNumber (number 10 name)))
  else none

def scanCondition (s : Text) : Option (List Token × Text) :=
  (takeUntil ')' s).bind fun p => (conditionToken p.1).map fun t => ([t], p.2)

def scanNamed : Text → Option (List Token × Text)
  | [] => none
  | c :: s =>
    if c = '<' then scanName '>' (fun n => .opening (.capture (some n))) s
    else if c = '=' then scanName ')' .refName s
    else none

def scanBehind (d : Dialect) : Text → Option (List Token × Text) :=
  onHead '=' (fun s => some ([.opening (.behind false)], s))
    (onHead '!' (fun s => some ([.opening (.behind true)], s)) fun s =>
      if d = .ruby then scanName '>' (fun n => .opening (.capture (some n))) s else none)

def scanExtension (d : Dialect) : Text → Option (List Token × Text)
  | [] => none
  | c :: s =>
    if c = 'P' ∧ d = .python then scanNamed s
    else if c = ':' then some ([.opening .plain], s)
    else if c = '#' then (skipComment s).map fun r => ([], r)
    else if c = '=' then some ([.opening (.ahead false)], s)
    else if c = '!' then some ([.opening (.ahead true)], s)
    else if c = '<' then scanBehind d s
    else if c = '(' then scanCondition s
    else (scanFlags (c :: s)).map fun p => ([.flags p.1], p.2)

def isSpace (c : Char) : Bool :=
  c = ' ' || c = '\t' || c = '\n' || c = '\r' || c = Char.ofNat 11 || c = Char.ofNat 12

/-- A character that stands for itself or for a whole construct of its own. -/
def simpleToken : Char → Token
  | ')' => .close
  | '|' => .bar
  | '.' => .item .dot
  | '^' => .item (.at .lineStart)
  | '$' => .item (.at .lineEnd)
  | c => .item (.lit c)

def scanChar (d : Dialect) (c : Char) (s : Text) : Option (List Token × Text) :=
  if c = '\\' then (scanEscape s).map fun p => ([p.1], p.2)
  else if c = '[' then (scanClass s).map fun p => ([p.1], p.2)
  else if c = '(' then
    onHead '?' (scanExtension d) (fun s => some ([.opening (.capture none)], s)) s
  else if c = '{' then (scanBrace s).map fun p => ([p.1], p.2)
  else if c = '*' then (scanLazy 0 none s).map fun p => ([p.1], p.2)
  else if c = '+' then (scanLazy 1 none s).map fun p => ([p.1], p.2)
  else if c = '?' then (scanLazy 0 (some 1) s).map fun p => ([p.1], p.2)
  else some ([simpleToken c], s)

/-- One step of the scanner.  Comments, and blanks in verbose mode, give no
token. -/
def scanToken (d : Dialect) (verbose : Bool) : Text → Option (List Token × Text)
  | [] => none
  | c :: s =>
    if verbose && isSpace c then some ([], s)
    else if verbose && c = '#' then some ([], (s.dropWhile (· ≠ '\n')).tail)
    else scanChar d c s

/-- The whole scanner; every step consumes a character, so the length of the
text is enough fuel. -/
def scan (d : Dialect) (verbose : Bool) : (fuel : Nat) → Text → Option (List Token)
  | _, [] => some []
  | 0, _ :: _ => none
  | fuel + 1, s =>
    (scanToken d verbose s).bind fun p => (scan d verbose fuel p.2).map fun rest => p.1 ++ rest

end AggregatedLogging.Regex
