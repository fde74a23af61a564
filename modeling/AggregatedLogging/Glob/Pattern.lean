import AggregatedLogging.Glob.Items

/-! The match patterns of Fluentd.  A star stands for characters within one part
of a tag, two stars for any characters; a dot next to two stars is optional
where the part is.  Alternatives in braces are multiplied out. -/
namespace AggregatedLogging.Glob

inductive Token where
  | char (c : Char)
  | escaped (c : Char)
  | dots
  | dotsDot
  deriving DecidableEq, Repr

/-- What was read and is not given out yet. -/
inductive Pending where
  | none
  | escape
  | star
  | stars
  deriving DecidableEq, Repr

def Pending.rest : Pending → List Token
  | .none => []
  | .escape => [.char '\\']
  | .star => [.char '*']
  | .stars => [.dots]

/-- Two stars are read together, with a dot that follows them. -/
def tokensFrom (p : Pending) : Text → List Token
  | [] => p.rest
  | c :: s =>
    if p = .escape then .char '\\' :: .escaped c :: tokensFrom .none s
    else if p = .stars ∧ c = '.' then .dotsDot :: tokensFrom .none s
    else if p = .star ∧ c = '*' then tokensFrom .stars s
    else if c = '*' then p.rest ++ tokensFrom .star s
    else if c = '\\' then p.rest ++ tokensFrom .escape s
    else p.rest ++ Token.char c :: tokensFrom .none s

def tokens (s : Text) : List Token := tokensFrom .none s

/-- The alternatives read so far, a dot that is held back, and the open braces
with what stands before them and their finished alternatives. -/
structure Builder where
  alts : List (List Item) := [[]]
  dot : Bool := false
  stack : List (List (List Item) × List (List Item)) := []
  deriving DecidableEq, Repr

def Builder.add (b : Builder) (i : Item) : Builder := { b with alts := b.alts.map (· ++ [i]) }

def Builder.flush (b : Builder) : Builder :=
  if b.dot then { (b.add (.lit '.')) with dot := false } else b

/-- In front of two stars the dot becomes optional at the end of a part. -/
def Builder.flushPart (b : Builder) : Builder :=
  if b.dot then { (b.add .partEnd) with dot := false } else b

def Builder.close (b : Builder) : Builder :=
  match b.stack with
  | [] => b
  | (before, done) :: rest =>
    { b with
      alts := before.flatMap fun p => (done ++ b.alts).map (p ++ ·)
      stack := rest }

def Builder.char (b : Builder) (c : Char) : Builder :=
  match c, b.stack with
  | '\\', _ => b
  | '.', _ => { b with dot := true }
  | '*', _ => b.add (.many '.')
  | '{', stack => { b with alts := [[]], stack := (b.alts, []) :: stack }
  | '}', _ :: _ => b.close
  | ',', (before, done) :: rest =>
    { b with alts := [[]], stack := (before, done ++ b.alts) :: rest }
  | c, _ => b.add (.lit c)

/-- Any characters up to a dot, or the beginning of the tag. -/
def Builder.addDotsDot (b : Builder) : Builder :=
  { b with alts := b.alts.flatMap fun p => [p ++ [Item.many '\n', .lit '.'], p ++ [Item.start]] }

def Builder.step (b : Builder) : Token → Builder
  | .char c => b.flush.char c
  | .escaped c => b.add (.lit c)
  | .dots => b.flushPart.add (.many '\n')
  | .dotsDot => b.flushPart.addDotsDot

def Builder.closeAll (b : Builder) : Builder := b.stack.foldl (fun b _ => b.close) b

def parse (pattern : Text) : List (List Item) :=
  ((tokens pattern).foldl Builder.step {}).closeAll.alts

/-- A match may leave one line break at the end of the tag. -/
def tagEnd (s : Text) : Bool := s = [] || s = ['\n']

def matchesTag (pattern tag : Text) : Bool :=
  (parse pattern).any fun is => accepts tagEnd is false tag

def matchesAny (patterns : List Text) (tag : Text) : Bool := patterns.any fun p => matchesTag p tag

example : matchesTag "a.**".toList "a".toList = true ∧ matchesTag "a.**".toList "a.b.c".toList = true ∧
    matchesTag "a.**".toList "ab".toList = false := by decide

example : matchesTag "**.a".toList "a".toList = true ∧
    matchesTag "{a,b.*}.c".toList "b.x.c".toList = true := by decide

end AggregatedLogging.Glob
