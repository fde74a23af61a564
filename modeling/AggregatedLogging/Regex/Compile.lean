import AggregatedLogging.Regex.Syntax

/-! The builder folds the tokens of a pattern into its tree.  It is a stack
machine: an opening parenthesis pushes a frame, a closing one pops it and adds
the finished group to the frame below.  Being a fold, it runs over the tokens
of two patterns one after the other, which is what joined patterns need. -/
namespace AggregatedLogging.Regex

/-- The branches of the group that is being read: the finished ones and the
items of the last one, both latest first. -/
structure Branches where
  done : List Node := []
  items : List Node := []
  deriving DecidableEq, Repr

def seqOf (items : List Node) : Node := items.foldl (fun a b => .seq b a) .empty

def altOf : List Node → Node
  | [] => .empty
  | [a] => a
  | a :: rest => .alt (altOf rest) a

def Branches.all (b : Branches) : List Node := seqOf b.items :: b.done

def Branches.node (b : Branches) : Node := altOf b.all

/-- An opening parenthesis with its names and numbers resolved. -/
inductive Opened where
  | capture (index : Nat)
  | plain
  | ahead (negated : Bool)
  | behind (negated : Bool)
  | cond (index : Nat)
  deriving DecidableEq, Repr

structure Frame where
  opened : Opened
  content : Branches
  deriving DecidableEq, Repr

/-- The group of a finished frame; the branches of a conditional are its two
cases. -/
def Frame.node (f : Frame) : Node :=
  match f.opened with
  | .capture i => .capture i f.content.node
  | .plain => f.content.node
  | .ahead n => .ahead n f.content.node
  | .behind n => .behind n f.content.node
  | .cond i =>
    match f.content.done with
    | [] => .cond i (seqOf f.content.items) .empty
    | a :: _ => .cond i a (seqOf f.content.items)

/-- The state of the builder: the groups numbered and named so far, the inline
flags, the open groups from the inside out, and the top level. -/
structure Builder where
  groups : Nat := 0
  names : List (Text × Nat) := []
  flags : Flags := {}
  inner : List Frame := []
  base : Branches := {}
  deriving DecidableEq, Repr

def Builder.onTop (b : Builder) (g : Branches → Option Branches) : Option Builder :=
  match b.inner with
  | [] => (g b.base).map fun c => { b with base := c }
  | f :: fs => (g f.content).map fun c => { b with inner := { f with content := c } :: fs }

def Branches.push (n : Node) (b : Branches) : Branches := { b with items := n :: b.items }

/-- An anchor cannot be repeated and neither can a repetition. -/
def Node.repeatable : Node → Bool
  | .atom (.at _) => false
  | .rep .. => false
  | _ => true

def Branches.quantify (lo : Nat) (hi : Option Nat) (greedy : Bool) (b : Branches) :
    Option Branches :=
  match b.items with
  | [] => none
  | n :: rest => if n.repeatable then some { b with items := .rep lo hi greedy n :: rest } else none

def Branches.bar (b : Branches) : Branches := ⟨seqOf b.items :: b.done, []⟩

/-- A conditional group has at most two branches. -/
def Builder.barAllowed (b : Builder) : Bool :=
  match b.inner with
  | ⟨.cond _, c⟩ :: _ => c.done.isEmpty
  | _ => true

def Builder.open (b : Builder) (o : Opened) : Builder :=
  { b with inner := ⟨o, {}⟩ :: b.inner }

/-- The next number goes to a capturing group; a name may be used once. -/
def Builder.openCapture (b : Builder) : Option Text → Option Builder
  | none => some (({ b with groups := b.groups + 1 } : Builder).open (.capture (b.groups + 1)))
  | some n =>
    if (b.names.lookup n).isSome then none
    else some (({ b with
      groups := b.groups + 1
      names := (n, b.groups + 1) :: b.names } : Builder).open (.capture (b.groups + 1)))

def Builder.isOpen (b : Builder) (i : Nat) : Bool :=
  b.inner.any fun f => f.opened = .capture i

def Builder.step (b : Builder) : Token → Option Builder
  | .item a => b.onTop fun c => some (c.push (.atom a))
  | .ref i => if i ≤ b.groups ∧ ¬ b.isOpen i then b.onTop fun c => some (c.push (.ref i)) else none
  | .refName n => (b.names.lookup n).bind fun i => b.onTop fun c => some (c.push (.ref i))
  | .quant lo hi greedy => b.onTop (Branches.quantify lo hi greedy)
  | .bar => if b.barAllowed then b.onTop fun c => some c.bar else none
  | .opening (.capture n) => b.openCapture n
  | .opening .plain => some (b.open .plain)
  | .opening (.ahead n) => some (b.open (.ahead n))
  | .opening (.behind n) => some (b.open (.behind n))
  | .opening (.condNumber i) => some (b.open (.cond i))
  | .opening (.condName n) => (b.names.lookup n).map fun i => b.open (.cond i)
  | .close =>
    match b.inner with
    | [] => none
    | f :: fs => ({ b with inner := fs } : Builder).onTop fun c => some (c.push f.node)
  | .flags fl => some { b with flags := b.flags.union fl }

def Builder.run (b : Builder) (ts : List Token) : Option Builder := ts.foldlM Builder.step b

structure Pattern where
  node : Node
  groups : Nat
  names : List (Text × Nat)
  flags : Flags
  deriving DecidableEq, Repr

def Builder.finish (b : Builder) : Option Pattern :=
  match b.inner with
  | [] => some ⟨b.base.node, b.groups, b.names, b.flags⟩
  | _ :: _ => none

def parse (ts : List Token) : Option Pattern := (Builder.run {} ts).bind Builder.finish

/-- The widths of the texts a tree can match, `none` standing for no bound.
References count nothing, as in the library this follows. -/
def Node.width : Node → Nat × Option Nat
  | .empty => (0, some 0)
  | .atom (.at _) => (0, some 0)
  | .atom _ => (1, some 1)
  | .ref _ | .ahead .. | .behind .. | .cond .. => (0, some 0)
  | .seq a b => (a.width.1 + b.width.1, a.width.2.bind fun x => b.width.2.map (x + ·))
  | .alt a b =>
    (min a.width.1 b.width.1, a.width.2.bind fun x => b.width.2.map (max x ·))
  | .capture _ a => a.width
  | .rep lo hi _ a => (lo * a.width.1, hi.bind fun h => a.width.2.map (h * ·))

/-- The checks made on the finished tree: a look-behind has one width, and a
conditional names a group that exists. -/
def Node.sound (groups : Nat) : Node → Bool
  | .empty | .atom _ | .ref _ => true
  | .seq a b | .alt a b => a.sound groups && b.sound groups
  | .capture _ a | .rep _ _ _ a | .ahead _ a => a.sound groups
  | .behind _ a => a.width.2 = some a.width.1 && a.sound groups
  | .cond i a b => decide (i ≤ groups) && a.sound groups && b.sound groups

/-- Python 2 numbers at most 99 capturing groups. -/
def Dialect.maxGroups : Dialect → Option Nat
  | .python => some 99
  | .ruby => none

def Dialect.groupsAllowed (d : Dialect) (groups : Nat) : Bool :=
  match d.maxGroups with
  | some n => decide (groups ≤ n)
  | none => true

def read (d : Dialect) (verbose : Bool) (pattern : Text) : Option Pattern :=
  (scan d verbose pattern.length pattern).bind parse

/-- A pattern that switches verbose mode on is read again in that mode. -/
def reread (d : Dialect) (pattern : Text) (r : Pattern) : Option Pattern :=
  if r.flags.verbose then
    (read d true pattern).map fun q => { q with flags := r.flags.union q.flags }
  else some r

def Pattern.checked (d : Dialect) (r : Pattern) : Option Pattern :=
  if r.node.sound r.groups ∧ d.groupsAllowed r.groups then
    some { r with flags := d.flags.union r.flags }
  else none

def compile (d : Dialect) (pattern : Text) : Option Pattern :=
  ((read d false pattern).bind (reread d pattern)).bind (Pattern.checked d)

end AggregatedLogging.Regex
