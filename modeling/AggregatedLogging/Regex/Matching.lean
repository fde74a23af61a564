import AggregatedLogging.Regex.Compile

/-! Backtracking semantics.  A tree maps a state to the states in which it can
succeed, in the order in which a backtracking matcher finds them, so the first
outcome is the match the matcher reports. -/
namespace AggregatedLogging.Regex

/-- A position in the subject: the text consumed so far, latest character
first, and the text that remains. -/
structure Cursor where
  past : Text
  rest : Text
  deriving DecidableEq, Repr

def Cursor.start (subject : Text) : Cursor := ⟨[], subject⟩

def Cursor.advance (c : Cursor) (n : Nat) : Cursor :=
  ⟨(c.rest.take n).reverse ++ c.past, c.rest.drop n⟩

def Cursor.back (c : Cursor) (n : Nat) : Cursor :=
  ⟨c.past.drop n, (c.past.take n).reverse ++ c.rest⟩

abbrev Captures := Nat → Option Text

structure State where
  cursor : Cursor
  captures : Captures

def State.start (subject : Text) : State := ⟨.start subject, fun _ => none⟩

def State.remaining (s : State) : Nat := s.cursor.rest.length

def State.consumed (s t : State) : Text := s.cursor.rest.take (s.remaining - t.remaining)

def isWord (c : Char) : Bool := c.isAlphanum || c = '_'

def ClassItem.holds : ClassItem → Char → Bool
  | .one a, c => c = a
  | .range lo hi, c => lo ≤ c && c ≤ hi
  | .digit n, c => xor n c.isDigit
  | .space n, c => xor n (isSpace c)
  | .word n, c => xor n (isWord c)

def swapCase (c : Char) : Char := if c.isUpper then c.toLower else c.toUpper

def classHolds (fl : Flags) (negated : Bool) (items : List ClassItem) (c : Char) : Bool :=
  xor negated (items.any fun i =>
    i.holds c || (fl.ignoreCase && (i.holds c.toLower || i.holds (swapCase c))))

def sameChar (fl : Flags) (a c : Char) : Bool :=
  c = a || (fl.ignoreCase && decide (c.toLower = a.toLower))

def Anchor.holds (fl : Flags) (c : Cursor) : Anchor → Bool
  | .lineStart => c.past = [] || (fl.multiline && c.past.head? = some '\n')
  | .lineEnd => c.rest = [] || c.rest = ['\n'] || (fl.multiline && c.rest.head? = some '\n')
  | .textStart => c.past = []
  | .textEnd => c.rest = []
  | .wordEdge n => xor n (xor (c.past.head?.any isWord) (c.rest.head?.any isWord))

def State.eat (p : Char → Bool) (s : State) : List State :=
  match s.cursor.rest with
  | [] => []
  | c :: rest => if p c then [⟨⟨c :: s.cursor.past, rest⟩, s.captures⟩] else []

def State.eatText (fl : Flags) (t : Text) (s : State) : List State :=
  if t.length ≤ s.remaining ∧
      (t.zip s.cursor.rest).all (fun p => sameChar fl p.1 p.2) then
    [⟨s.cursor.advance t.length, s.captures⟩]
  else []

def State.capture (i : Nat) (entry s : State) : State :=
  ⟨s.cursor, fun j => if j = i then some (entry.consumed s) else s.captures j⟩

/-- Repetition.  Past the required number, an iteration that makes no progress
is the last one, so the remaining length bounds their number. -/
def iterate (body : State → List State) (greedy : Bool) :
    (fuel lo : Nat) → (hi : Option Nat) → State → List State
  | 0, 0, _, s => [s]
  | 0, _ + 1, _, _ => []
  | fuel + 1, lo + 1, hi, s => (body s).flatMap (iterate body greedy fuel lo (hi.map (· - 1)))
  | fuel + 1, 0, hi, s =>
    if hi = some 0 then [s]
    else
      let more := (body s).flatMap fun t =>
        if t.remaining < s.remaining then iterate body greedy fuel 0 (hi.map (· - 1)) t else [t]
      if greedy then more ++ [s] else s :: more

/-- A look-around keeps the position; a positive one keeps the captures of its
first success. -/
def lookOutcome (negated : Bool) (outcomes : List State) (s : State) : List State :=
  match negated, outcomes with
  | false, [] => []
  | false, t :: _ => [⟨s.cursor, t.captures⟩]
  | true, [] => [s]
  | true, _ :: _ => []

def Atom.run (fl : Flags) : Atom → State → List State
  | .lit a, s => s.eat (sameChar fl a)
  | .dot, s => s.eat fun c => fl.dotAll || c ≠ '\n'
  | .cls negated items, s => s.eat (classHolds fl negated items)
  | .at a, s => if a.holds fl s.cursor then [s] else []

def Node.run (fl : Flags) : Node → State → List State
  | .empty, s => [s]
  | .atom a, s => a.run fl s
  | .seq a b, s => (a.run fl s).flatMap (b.run fl)
  | .alt a b, s => a.run fl s ++ b.run fl s
  | .capture i a, s => (a.run fl s).map (State.capture i s)
  | .ref i, s =>
    match s.captures i with
    | none => []
    | some t => s.eatText fl t
  | .rep lo hi greedy a, s => iterate (a.run fl) greedy (lo + s.remaining + 1) lo hi s
  | .ahead negated a, s => lookOutcome negated (a.run fl s) s
  | .behind negated a, s =>
    if a.width.1 ≤ s.cursor.past.length then
      lookOutcome negated (a.run fl ⟨s.cursor.back a.width.1, s.captures⟩) s
    else lookOutcome negated [] s
  | .cond i a b, s => if (s.captures i).isSome then a.run fl s else b.run fl s

def positions : Text → Text → List Cursor
  | past, [] => [⟨past, []⟩]
  | past, c :: rest => ⟨past, c :: rest⟩ :: positions (c :: past) rest

structure Match where
  start : Cursor
  final : State

def Match.text (m : Match) : Text :=
  m.start.rest.take (m.start.rest.length - m.final.remaining)

def Match.group (m : Match) (i : Nat) : Option Text :=
  if i = 0 then some m.text else m.final.captures i

def Pattern.matchAt (r : Pattern) (c : Cursor) : Option Match :=
  (r.node.run r.flags ⟨c, fun _ => none⟩).head?.map fun t => ⟨c, t⟩

def Pattern.search (r : Pattern) (subject : Text) : Option Match :=
  (positions [] subject).findSome? r.matchAt

def Pattern.matchStart (r : Pattern) (subject : Text) : Option Match := r.matchAt (.start subject)

def Pattern.found (r : Pattern) (subject : Text) : Bool := (r.search subject).isSome

end AggregatedLogging.Regex
