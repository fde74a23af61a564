import AggregatedLogging.Lines
import AggregatedLogging.Regex.Flat
import AggregatedLogging.Regex.Lazy

/-! Basic regular expressions, read into the same trees.  Groups, intervals, back references and
bracket expressions are left out: an expression with one of them is not read. -/
namespace AggregatedLogging.Regex

section Reading

/-- Where a character of an expression stands: a caret is special in front, and a star is not
special there and behind the caret. -/
inductive Place where
  | front
  | behindCaret
  | inside
  | behindSlash
  deriving DecidableEq, Repr

/-- With a backslash in front these stand for themselves. -/
def isQuotable (c : Char) : Bool :=
  c = '.' || c = '[' || c = ']' || c = '*' || c = '^' || c = '$' || c = '\\' || c = '/'

def starLatest : List Node → List Node
  | [] => []
  | a :: done => .rep 0 none true a :: done

/-- The parts of an expression behind those that have been read, latest part first. -/
def basicFrom : Place → List Node → Text → Option (List Node)
  | place, done, [] => if place = .behindSlash then none else some done.reverse
  | place, done, c :: s =>
    if place = .behindSlash then
      if isQuotable c then basicFrom .inside (.atom (.lit c) :: done) s else none
    else if c = '\\' then basicFrom .behindSlash done s
    else if c = '^' ∧ place = .front then
      basicFrom .behindCaret (.atom (.at .textStart) :: done) s
    else if c = '$' ∧ s = [] then some (.atom (.at .textEnd) :: done).reverse
    else if c = '*' ∧ place = .inside then basicFrom .inside (starLatest done) s
    else if c = '[' then none
    else if c = '.' then basicFrom .inside (.atom .dot :: done) s
    else basicFrom .inside (.atom (.lit c) :: done) s

def basicNode (parts : List Node) : Node := parts.foldr .seq .empty

def compileBasic (s : Text) : Option Pattern :=
  (basicFrom .front [] s).map fun parts => ⟨basicNode parts, 0, [], {}⟩

end Reading

section Parts

variable {c : Char} {s : Text} {place : Place} {done : List Node}

theorem basicFrom_quoted (hplace : place ≠ .behindSlash) (h : isQuotable c = true) :
    basicFrom place done ('\\' :: c :: s) = basicFrom .inside (.atom (.lit c) :: done) s := by
  rw [basicFrom, if_neg hplace, if_pos rfl, basicFrom, if_pos rfl, if_pos h]

theorem basicFrom_caret :
    basicFrom .front done ('^' :: s) =
      basicFrom .behindCaret (.atom (.at .textStart) :: done) s := by
  rw [basicFrom, if_neg (by decide), if_neg (by decide), if_pos ⟨rfl, rfl⟩]

theorem basicFrom_dollar (hplace : place ≠ .behindSlash) :
    basicFrom place done ['$'] = some (.atom (.at .textEnd) :: done).reverse := by
  rw [basicFrom, if_neg hplace, if_neg (by decide), if_neg fun h => absurd h.1 (by decide),
    if_pos ⟨rfl, rfl⟩]

theorem basicFrom_dot (hplace : place ≠ .behindSlash) :
    basicFrom place done ('.' :: s) = basicFrom .inside (.atom .dot :: done) s := by
  rw [basicFrom, if_neg hplace, if_neg (by decide), if_neg fun h => absurd h.1 (by decide),
    if_neg fun h => absurd h.1 (by decide), if_neg fun h => absurd h.1 (by decide),
    if_neg (by decide), if_pos rfl]

theorem basicFrom_plain (hplace : place ≠ .behindSlash) (hslash : c ≠ '\\')
    (hcaret : ¬ (c = '^' ∧ place = .front)) (hdollar : ¬ (c = '$' ∧ s = [])) (hstar : c ≠ '*')
    (hbracket : c ≠ '[') (hdot : c ≠ '.') :
    basicFrom place done (c :: s) = basicFrom .inside (.atom (.lit c) :: done) s := by
  rw [basicFrom, if_neg hplace, if_neg hslash, if_neg hcaret, if_neg hdollar,
    if_neg fun h => hstar h.1, if_neg hbracket, if_neg hdot]

theorem basicNode_lits (w : Text) :
    basicNode (w.map fun c => .atom (.lit c)) = litsThen w .empty := by
  rw [basicNode, litsThen, List.foldr_map]

end Parts

section Grep

def fileLines (file : Text) : List Text :=
  (Text.lines file).map fun l => if l.getLast? = some '\n' then l.dropLast else l

/-- A word with a dash in front is an option, but for the dash alone. -/
def isOperand (w : Text) : Bool := w.head? ≠ some '-' || w = ['-']

/-- Whether `grep` selects a line.  The first operand is the expression, the others are files;
without files the input is read, which is empty. -/
def grep (read : Text → Option Text) (args : List Text) : Bool :=
  match args.filter isOperand with
  | [] => false
  | expression :: files =>
    match compileBasic expression with
    | none => false
    | some p => files.any fun name => (read name).any fun file => (fileLines file).any p.found

theorem grep_expression {read : Text → Option Text} {expression name file : Text} {p : Pattern}
    (hexpression : isOperand expression = true) (hname : isOperand name = true)
    (hread : read name = some file) (hp : compileBasic expression = some p) :
    grep read [expression, name] = (fileLines file).any p.found := by
  have hfilter : [expression, name].filter isOperand = [expression, name] := by
    rw [List.filter_cons_of_pos hexpression, List.filter_cons_of_pos hname, List.filter_nil]
  rw [grep, hfilter]
  dsimp only
  rw [hp]
  dsimp only
  rw [List.any_cons, List.any_nil, Bool.or_false, hread, Option.any_some]

theorem grep_option {read : Text → Option Text} {word name : Text}
    (hword : isOperand word = false) (hname : isOperand name = true) :
    grep read [word, name] = false := by
  have hfilter : [word, name].filter isOperand = [name] := by
    rw [List.filter_cons_of_neg (by rw [hword]; exact Bool.false_ne_true),
      List.filter_cons_of_pos hname, List.filter_nil]
  rw [grep, hfilter]
  dsimp only
  cases compileBasic name with
  | none => rfl
  | some p => rfl

theorem fileLines_single {l : Text} (h : '\n' ∉ l) : fileLines (l ++ ['\n']) = [l] := by
  have hlines : Text.lines (l ++ ['\n']) = [l ++ ['\n']] := by
    have hcons := Text.lines_cons ⟨l, h, rfl⟩ []
    rw [List.append_nil] at hcons
    exact hcons
  rw [fileLines, hlines, List.map_singleton, if_pos List.getLast?_concat, List.dropLast_concat]

end Grep

end AggregatedLogging.Regex
