import AggregatedLogging.Python.Value

/-! The parser of the legacy configuration.  Errors abort it as a whole, so the
assignments to the internal configuration are collected and made at the end. -/
namespace AggregatedLogging.Curator

open Python

structure Env where
  home : Option Text := none
  legacyConfig : Option Text := none
  actionsFile : Option Text := none
  defaultDays : Option Text := none
  runHour : Option Text := none
  runMinute : Option Text := none
  runTimezone : Option Text := none
  timeout : Option Text := none

/-- What can go wrong: the exceptions that the converter raises itself, and
those that the language and its library raise. -/
inductive Failure where
  | incomplete (project : Key)
  | incompleteRegex (regex : Yaml)
  | emptyDelete
  | unitNotAllowed (unit : Key)
  | invalidRegex (project : Key)
  | nameTooLong (project : Key)
  | nameMismatch (project : Key)
  | builtin (c : ErrorClass)

def Failure.errorClass : Failure → ErrorClass
  | .incomplete _ | .incompleteRegex _ => .exception
  | .emptyDelete | .unitNotAllowed _ | .invalidRegex _ | .nameTooLong _ | .nameMismatch _ =>
    .valueError
  | .builtin c => c

def dotDefaults : Text := ".defaults".toList

def dotRegex : Text := ".regex".toList

def builtin (r : Except ErrorClass α) : Except Failure α := r.mapError .builtin

theorem builtin_ok {r : Except ErrorClass α} {a : α} : builtin r = .ok a ↔ r = .ok a := by
  cases r <;> simp [builtin, Except.mapError]

inductive TimeUnit where
  | days
  | weeks
  | months
  deriving DecidableEq, Repr

structure Delete where
  unit : TimeUnit
  count : Int
  deriving DecidableEq, Repr

/-- When the curator runs; only the defaults carry it. -/
structure Schedule where
  runhour : Int
  runminute : Int
  timezone : Yaml

structure Project where
  rawRegex : Bool
  delete : Delete
  schedule : Option Schedule := none

abbrev Internal := Dict Project

structure Parser where
  defaultTimeUnit : TimeUnit := .days
  defaultCount : Int
  runhour : Int
  runminute : Int
  timezone : Yaml

def envInt (value : Option Text) (default : Int) : Except Failure Int :=
  match value with
  | none => .ok default
  | some s => builtin (orValueError (intOfText s))

def Parser.init (env : Env) : Except Failure Parser := do
  let defaultCount ← envInt env.defaultDays 31
  let runhour ← envInt env.runHour 0
  let runminute ← envInt env.runMinute 0
  return { defaultCount, runhour, runminute, timezone := .str (env.runTimezone.getD "UTC".toList) }

def allowedUnits : List (Text × TimeUnit) :=
  [("days".toList, .days), ("weeks".toList, .weeks), ("months".toList, .months)]

def allowedUnit (key : Key) : Option TimeUnit := key.text?.bind fun s => allowedUnits.lookup s

def TimeUnit.convert (unit : TimeUnit) (n : Int) : Delete :=
  match unit with
  | .weeks => ⟨.days, n * 7⟩
  | unit => ⟨unit, n⟩

def unitStep (node : Dict Yaml) (key : Key) : Except Failure Delete :=
  match allowedUnit key with
  | none => .error (.unitNotAllowed key)
  | some unit => (builtin ((node.get? key).getD .null).toInt).map unit.convert

namespace Parser

variable (p : Parser) (o : Order)

/-- The retention of a delete node; later units replace earlier ones. -/
def unitCount (node : Yaml) : Except Failure Delete :=
  match node with
  | .null => .error .emptyDelete
  | node =>
    match node.dict? with
    | none => .error (.builtin .attributeError)
    | some units =>
      (o.keys units).foldlM (fun _ key => unitStep units key) ⟨p.defaultTimeUnit, p.defaultCount⟩

def regexEntry (regex : Yaml) : Except Failure (Key × Project) :=
  match regex.dict? with
  | none => .error (.builtin .attributeError)
  | some fields =>
    let delete := (fields.get? (.str "delete".toList)).getD .null
    let pattern := (fields.get? (.str "pattern".toList)).getD .null
    if !delete.truthy || !pattern.truthy then .error (.incompleteRegex regex)
    else do
      let delete ← p.unitCount o delete
      match pattern.key? with
      | none => .error (.builtin .typeError)
      | some key => .ok (key, { rawRegex := true, delete })

/-- The members of a text or of a mapping have no fields to read. -/
def parseRegex : Yaml → Except Failure (List (Key × Project))
  | .seq items => items.mapM (p.regexEntry o)
  | .str _ | .map _ => .error (.builtin .attributeError)
  | _ => .error (.builtin .typeError)

def scheduleField (node : Dict Yaml) (key : Text) (default : α)
    (read : Yaml → Except ErrorClass α) : Except Failure α :=
  match node.get? (.str key) with
  | none => .ok default
  | some v => builtin (read v)

def schedule (node : Dict Yaml) : Except Failure Schedule := do
  let runhour ← scheduleField node "runhour".toList p.runhour Yaml.toInt
  let runminute ← scheduleField node "runminute".toList p.runminute Yaml.toInt
  let timezone ← scheduleField node "timezone".toList p.timezone Yaml.toStr
  return { runhour, runminute, timezone }

/-- A missing delete node is read as an empty one. -/
def deleteNode (node : Dict Yaml) : Yaml := (node.get? (.str "delete".toList)).getD (.map [])

def projectEntry (project : Key) (node : Yaml) : Except Failure (Key × Project) :=
  match node.dict? with
  | none => .error (.builtin .attributeError)
  | some fields => do
    let delete ← p.unitCount o (deleteNode fields)
    if project = .str dotDefaults then
      let schedule ← p.schedule fields
      return (project, { rawRegex := false, delete, schedule := some schedule })
    else return (project, { rawRegex := false, delete })

def assignments (config : Dict Yaml) (project : Key) : Except Failure (List (Key × Project)) :=
  let node := (config.get? project).getD .null
  if !node.truthy then .error (.incomplete project)
  else if project = .str dotRegex then p.parseRegex o node
  else do
    let entry ← p.projectEntry o project node
    return [entry]

def defaults : Project where
  rawRegex := false
  delete := ⟨p.defaultTimeUnit, p.defaultCount⟩
  schedule := some ⟨p.runhour, p.runminute, p.timezone⟩

def seedDefaults (internal : Internal) : Internal :=
  if internal.contains (.str dotDefaults) then internal
  else internal.insert (.str dotDefaults) p.defaults

/-- Falsy documents are read as an empty configuration.  The members of a list
or a text have no entries to look up, and other values cannot be iterated. -/
def configOf (document : Yaml) : Except Failure (Dict Yaml) :=
  if !document.truthy then .ok .empty
  else
    match document with
    | .map entries => .ok (.ofList entries)
    | .seq _ | .str _ => .error (.builtin .attributeError)
    | _ => .error (.builtin .typeError)

def createInternalRepresentation (config : Dict Yaml) : Except Failure Internal := do
  let assigned ← (o.keys config).mapM (p.assignments o config)
  return p.seedDefaults (.ofList assigned.flatten)

end Parser

def parse (env : Env) (o : Order) (document : Except ErrorClass Yaml) : Except Failure Internal := do
  let p ← Parser.init env
  let document ← builtin document
  let config ← Parser.configOf document
  p.createInternalRepresentation o config

end AggregatedLogging.Curator
