import AggregatedLogging.Curator.Process

/-! What can be wrong with a legacy configuration, read off the document itself,
and which of these defects the converter reports. -/
namespace AggregatedLogging.Curator

open Python

inductive Defect where
  | variable
  | notLoaded (c : ErrorClass)
  | documentNotMapping
  | emptyEntry
  | entryNotMapping
  | deleteNull
  | deleteNotMapping
  | unknownUnit
  | countNotInteger
  | countNotNumber
  | countInfinite
  | timezoneNotAscii
  | regexNotList
  | regexNotMapping
  | regexIncomplete
  | patternNotHashable
  | patternInvalid
  | nameTooLong
  | nameMismatch
  | nameNotText

/-- The defects that end in exit status two. -/
def Defect.reported : Defect → Bool
  | .notLoaded c => c = .valueError
  | .variable | .deleteNull | .unknownUnit | .countNotInteger | .timezoneNotAscii
  | .patternInvalid | .nameTooLong | .nameMismatch => true
  | .documentNotMapping | .emptyEntry | .entryNotMapping | .deleteNotMapping | .countNotNumber
  | .countInfinite | .regexNotList | .regexNotMapping | .regexIncomplete | .patternNotHashable
  | .nameNotText => false

def variableDefect : Option Text → Option Defect
  | none => none
  | some s => if (intOfText s).isNone then some .variable else none

def environmentDefect (env : Env) : Option Defect :=
  (variableDefect env.defaultDays).or
    ((variableDefect env.runHour).or (variableDefect env.runMinute))

def countDefect : Yaml → Option Defect
  | .bool _ | .int _ | .float (.finite _) => none
  | .float (.infinity _) => some .countInfinite
  | .float .nan => some .countNotInteger
  | .str s => if (intOfLoaded s).isNone then some .countNotInteger else none
  | .null | .date _ | .seq _ | .map _ => some .countNotNumber

def timezoneDefect : Yaml → Option Defect
  | .str s => if isAscii s then none else some .timezoneNotAscii
  | _ => none

def unitDefect (node : Dict Yaml) (key : Key) : Option Defect :=
  if (allowedUnit key).isNone then some .unknownUnit
  else countDefect ((node.get? key).getD .null)

def deleteDefect (o : Order) : Yaml → Option Defect
  | .null => some .deleteNull
  | .map entries =>
    (o.keys (.ofList entries)).findSome? (unitDefect (.ofList entries))
  | _ => some .deleteNotMapping

def fieldDefect (node : Dict Yaml) (key : Text) (defect : Yaml → Option Defect) : Option Defect :=
  (node.get? (.str key)).bind defect

def scheduleDefect (node : Dict Yaml) : Option Defect :=
  (fieldDefect node "runhour".toList countDefect).or
    ((fieldDefect node "runminute".toList countDefect).or
      (fieldDefect node "timezone".toList timezoneDefect))

def regexDefect (o : Order) : Yaml → Option Defect
  | .map entries =>
    let fields := Dict.ofList entries
    let delete := (fields.get? (.str "delete".toList)).getD .null
    let pattern := (fields.get? (.str "pattern".toList)).getD .null
    if !delete.truthy || !pattern.truthy then some .regexIncomplete
    else (deleteDefect o delete).or
      (if pattern.key?.isNone then some .patternNotHashable else none)
  | _ => some .regexNotMapping

def projectDefect (o : Order) (project : Key) : Yaml → Option Defect
  | .map entries =>
    (deleteDefect o (Parser.deleteNode (.ofList entries))).or
      (if project = .str dotDefaults then scheduleDefect (.ofList entries) else none)
  | _ => some .entryNotMapping

def entryDefect (o : Order) (config : Dict Yaml) (project : Key) : Option Defect :=
  let node := (config.get? project).getD .null
  if !node.truthy then some .emptyEntry
  else if project = .str dotRegex then
    match node with
    | .seq items => items.findSome? (regexDefect o)
    | _ => some .regexNotList
  else projectDefect o project node

def regexKey (regex : Yaml) : Option Key :=
  regex.dict?.bind fun fields => (fields.get? (.str "pattern".toList)).bind Yaml.key?

/-- The names that one key of the configuration brings, each with whether it is
a regular expression. -/
def entryNames (config : Dict Yaml) (project : Key) : List (Key × Bool) :=
  if project = .str dotRegex then
    match config.get? project with
    | some (.seq items) => items.filterMap fun regex => (regexKey regex).map fun k => (k, true)
    | _ => []
  else [(project, false)]

/-- All names of a configuration; of equal names the last one decides. -/
def configNames (o : Order) (config : Dict Yaml) : Dict Bool :=
  let names := Dict.ofList ((o.keys config).flatMap (entryNames config))
  if names.contains (.str dotDefaults) then names else names.insert (.str dotDefaults) false

def nameDefect (name : Key) (raw : Bool) : Option Defect :=
  if raw then
    if name.text?.any fun s => (Regex.compile .python s).isSome then none else some .patternInvalid
  else
    match name with
    | .scalar (.str s) =>
      if s ∈ specialProjects then none
      else if projectMaxLen < s.length then some .nameTooLong
      else if matchesProjectRe s then none
      else some .nameMismatch
    | .tuple items => if projectMaxLen < items.length then some .nameTooLong else some .nameNotText
    | _ => some .nameNotText

def namesDefect (o : Order) (config : Dict Yaml) : Option Defect :=
  (o.keys (configNames o config)).findSome? fun k =>
    ((configNames o config).get? k).bind (nameDefect k)

/-- The first defect of a configuration: of its entries, and then of its names. -/
def configDefect (o : Order) (config : Dict Yaml) : Option Defect :=
  ((o.keys config).findSome? (entryDefect o config)).or (namesDefect o config)

def documentDefect (o : Order) (document : Yaml) : Option Defect :=
  if !document.truthy then configDefect o .empty
  else
    match document with
    | .map entries => configDefect o (.ofList entries)
    | _ => some .documentNotMapping

def firstDefect (env : Env) (o : Order) (document : Except ErrorClass Yaml) : Option Defect :=
  (environmentDefect env).or
    (match document with
    | .error c => some (.notLoaded c)
    | .ok document => documentDefect o document)

end AggregatedLogging.Curator
