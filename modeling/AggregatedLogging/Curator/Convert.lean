import AggregatedLogging.Curator.Parser
import AggregatedLogging.Python.Except
import AggregatedLogging.Regex.Prefix

/-! The conversion of a legacy configuration to an actions file. -/
namespace AggregatedLogging.Curator

open Python

/-- The timeout comes from the environment as a text. -/
inductive Timeout where
  | default
  | given (s : Text)
  deriving DecidableEq, Repr

structure Options where
  ignoreEmptyList : Bool := true
  continueIfException : Bool := false
  timeoutOverride : Timeout
  deriving DecidableEq, Repr

structure PatternFilter where
  kind : Text := "regex".toList
  value : Text
  exclude : Bool
  deriving DecidableEq, Repr

structure AgeFilter where
  source : Text := "name".toList
  direction : Text := "older".toList
  timestring : Text := "%Y.%m.%d".toList
  unit : TimeUnit
  unitCount : Int
  deriving DecidableEq, Repr

structure Action where
  action : Text := "delete_indices".toList
  description : Text := "auto-generated".toList
  options : Options
  pattern : PatternFilter
  age : AgeFilter
  deriving DecidableEq, Repr

def projPrefix : Text := "project.".toList

/-- The pattern of the indices of a project; each of them is a quoted text
between `^` and `.*$`. -/
def formatRegex (project : Text) : Text :=
  if project = ".kibana".toList then Regex.prefixPattern project
  else if ['.'] <+: project ∨ projPrefix <+: project then
    Regex.prefixPattern (project ++ ['.'])
  else Regex.prefixPattern (projPrefix ++ project ++ ['.'])

def timeoutOverride (env : Env) : Timeout := (env.timeout.map .given).getD .default

def generateAction (env : Env) (delete : Delete) (regex : Text) (exclude : Bool) : Action where
  options := { timeoutOverride := timeoutOverride env }
  pattern := { value := regex, exclude }
  age := { unit := delete.unit, unitCount := delete.count }

def Action.retention (a : Action) : Delete := ⟨a.age.unit, a.age.unitCount⟩

@[simp] theorem generateAction_value (env : Env) (delete : Delete) (regex : Text) (exclude : Bool) :
    (generateAction env delete regex exclude).pattern.value = regex := rfl

@[simp] theorem generateAction_exclude (env : Env) (delete : Delete) (regex : Text)
    (exclude : Bool) : (generateAction env delete regex exclude).pattern.exclude = exclude := rfl

@[simp] theorem generateAction_retention (env : Env) (delete : Delete) (regex : Text)
    (exclude : Bool) : (generateAction env delete regex exclude).retention = delete := rfl

def specialProjects : List Text :=
  [".kibana".toList, ".operations".toList, dotDefaults, ".searchguard".toList]

def projectMaxLen : Nat := 63

def projectRe : Text := "^[a-z0-9]([-a-z0-9]*[a-z0-9])?$".toList

def matchesProjectRe (name : Text) : Bool :=
  (Regex.compile .python projectRe).any fun r => (r.matchStart name).isSome

/-- The check of one name.  The compiler of regular expressions takes texts
only, and whatever it raises is turned into an invalid pattern; the length of a
tuple is the number of its members. -/
def validateProject (project : Key) (proj : Project) : Except Failure Unit :=
  if proj.rawRegex then
    if project.text?.any fun s => (Regex.compile .python s).isSome then .ok ()
    else .error (.invalidRegex project)
  else
    match project with
    | .scalar (.str name) =>
      if name ∈ specialProjects then .ok ()
      else if projectMaxLen < name.length then .error (.nameTooLong project)
      else if matchesProjectRe name then .ok ()
      else .error (.nameMismatch project)
    | .tuple items =>
      if projectMaxLen < items.length then .error (.nameTooLong project)
      else .error (.builtin .typeError)
    | _ => .error (.builtin .typeError)

def projects (o : Order) (internal : Internal) : List (Key × Project) :=
  (o.keys internal).filterMap fun k => (internal.get? k).map fun proj => (k, proj)

def validateInternalConfig (o : Order) (internal : Internal) : Except Failure Internal := do
  (projects o internal).forM fun p => validateProject p.1 p.2
  return internal

def actionEntries (o : Order) (internal : Internal) : List (Key × Project) :=
  (projects o internal).filter fun p => p.1 ≠ .str dotDefaults ∧ p.1 ≠ .str dotRegex

def explicitProjects (o : Order) (internal : Internal) : List (Text × Project) :=
  (actionEntries o internal).filterMap fun p => p.1.text?.map fun name => (name, p.2)

def projectRegex (name : Text) (proj : Project) : Text :=
  if proj.rawRegex then name else formatRegex name

def defaultDelete (internal : Internal) : Delete :=
  ((internal.get? (.str dotDefaults)).map Project.delete).getD ⟨.days, 0⟩

/-- The texts of the patterns that the default action leaves to others. -/
def excludedPatterns (o : Order) (internal : Internal) : List Text :=
  (explicitProjects o internal).map (fun p => projectRegex p.1 p.2) ++
    [".searchguard".toList, ".kibana".toList].map formatRegex

def generateDefaults (env : Env) (o : Order) (internal : Internal) : Action :=
  generateAction env (defaultDelete internal)
    (Text.join ['|'] (excludedPatterns o internal)) true

def explicitActions (env : Env) (o : Order) (internal : Internal) : List Action :=
  (explicitProjects o internal).map fun p =>
    generateAction env p.2.delete (projectRegex p.1 p.2) false

/-- The actions in the order of their numbers, counted from one.  A name that is
not a text has no `startswith`, and a pattern that is none cannot be joined. -/
def generate (env : Env) (o : Order) (internal : Internal) : Except Failure (List Action) := do
  (actionEntries o internal).forM fun p =>
    if p.1.text?.isSome then .ok ()
    else .error (.builtin (if p.2.rawRegex then .typeError else .attributeError))
  return explicitActions env o internal ++ [generateDefaults env o internal]

def accept (env : Env) (o : Order) (document : Except ErrorClass Yaml) : Except Failure Internal := do
  let internal ← parse env o document
  validateInternalConfig o internal

def PatternFilter.keeps (f : PatternFilter) (index : Text) : Bool :=
  xor f.exclude (Regex.matchesText f.value index)

/-- The action selects an index, whatever its age. -/
def Action.selects (a : Action) (index : Text) : Bool := a.pattern.keeps index

end AggregatedLogging.Curator
