import AggregatedLogging.Regex.Lazy
import AggregatedLogging.Ruby.Number
import AggregatedLogging.Ruby.Split
import AggregatedLogging.Wire

/-! `viaq_docker_audit.rb`, which makes an event of a line of the audit log, and the
parser of `fluentd` around it. -/
namespace AggregatedLogging.Audit

open Regex Ruby

/-- A text, where bytes without an encoding count as characters; or bytes that are no text
in their encoding, against which no pattern can be matched. -/
inductive Line where
  | text (s : Text)
  | broken (s : Wire.Bytes)

inductive AuditError where
  /-- The exception `ViaqDockerAuditParserException`. -/
  | parser (message : Text)
  | noMethod
  | floatDomain
  | argument
  deriving DecidableEq, Repr

/-- The value of a key, or the values of a key that is repeated. -/
inductive Field where
  | one (value : Text)
  | many (values : List Text)
  deriving DecidableEq, Repr

/-- A hash in the order of its keys. -/
abbrev Entries := List (Text × Field)

/-- The times of the standard library: a number of seconds in UTC as a date with
microseconds, dates that are read back, and the time of the clock. -/
structure Clock where
  rfc3339 : Decimal → Text
  parse : Text → Option Decimal
  now : Decimal
  parse_rfc3339 : ∀ d, d.isInfinite = false → (parse (rfc3339 d)).isSome = true

def typePattern : Text := "^type=(?<type>[a-zA-Z_]+)".toList

def daemonPathPattern : Text := "\\/usr\\/bin\\/dockerd-current".toList

def messagePattern : Text := "(?<g1>.*?) msg='(?<g2>.*?)'".toList

def stampPattern : Text := "msg=audit\\((?<g1>.*):\\d+\\):".toList

def daemonPattern : Text := "dockerd-current".toList

def search (pattern s : Text) : Option Match := (compile .ruby pattern).bind fun r => r.search s

def virtControl : Text := "VIRT_CONTROL".toList

def typeOf (line : Text) : Option Text := (search typePattern line).bind fun m => m.group 1

def filterVirtControl (line : Text) : Bool :=
  typeOf line = some virtControl && (search daemonPathPattern line).isSome

def messageParts (line : Text) : Option (Text × Text) :=
  (search messagePattern line).bind fun m =>
    (m.group 1).bind fun g1 => (m.group 2).map fun g2 => (g1, g2)

def timeKey : Text := "time".toList

def exeKey : Text := "exe".toList

/-- The first match of the pattern is replaced by its group. -/
def stampOf (token : Text) : Text :=
  (search stampPattern token).elim token fun m =>
    m.start.past.reverse ++ ((m.group 1).getD [] ++ m.final.cursor.rest)

def Field.merge (value : Text) : Field → Field
  | .one old => .many [value, old]
  | .many values => .many (values ++ [value])

def insertOrMerge (key value : Text) : Entries → Entries
  | [] => [(key, .one value)]
  | (k, f) :: result =>
    if k = key then (k, f.merge value) :: result else (k, f) :: insertOrMerge key value result

def pairOf (part : Text) : Option (Text × Text) :=
  match splitAt '=' part with
  | key :: value :: _ => if value = ['?'] then none else some (key, value)
  | _ => none

def insertPart (result : Entries) (part : Text) : Entries :=
  (pairOf part).elim result fun p => insertOrMerge p.1 p.2 result

def parseMetadata : List Text → Except AuditError Entries
  | _ :: stamp :: parts => .ok (parts.foldl insertPart [(timeKey, .one (stampOf stamp))])
  | _ => .error .noMethod

def parseMsg (parts : List Text) : Entries := parts.foldl insertPart []

/-- Keys of an event and the keys of the line they are filled from. -/
def hostNames : List (Text × Text) :=
  [("PID".toList, "pid".toList), ("UID".toList, "uid".toList),
    ("AUDIT_LOGINUID".toList, "auid".toList), ("AUDIT_SESSION".toList, "ses".toList),
    ("SELINUX_CONTEXT".toList, "subj".toList)]

def dockerNames : List (Text × Text) :=
  [("sauid".toList, "auid".toList), ("container_id_short".toList, "hostname".toList),
    ("container_image".toList, "vm".toList), ("pid".toList, "vm-pid".toList),
    ("user".toList, "user".toList), ("reason".toList, "reason".toList),
    ("operation".toList, "op".toList), ("result".toList, "res".toList)]

def hostExe : Text := "EXE".toList

def dockerCommand : Text := "command".toList

/-- The hashes `systemd.t` and `docker` of an event, with its time and its host. -/
structure Event where
  time : Text
  hostname : Option Text
  trusted : Entries
  docker : Entries
  deriving DecidableEq, Repr

def renamed (names : List (Text × Text)) (target : Entries) : Entries :=
  names.filterMap fun n => (target.lookup n.2).map fun f => (n.1, f)

def namesDaemon (exe : Text) : Bool := (search daemonPattern exe).isSome

def dedupStep (found : Field × Option Text) (exe : Text) : Field × Option Text :=
  if namesDaemon exe then (.one exe, found.2) else (found.1, some exe)

/-- The program of the event and the command.  A single value is not looked at. -/
def dedupExe : Field → Field × Option Text
  | .one exe => (.one exe, none)
  | .many exes => exes.foldl dedupStep (.many exes, none)

def exeOf (docker : Entries) : Option Field := (docker.lookup exeKey).map fun f => (dedupExe f).1

def commandOf (docker : Entries) : Option Field :=
  (docker.lookup exeKey).bind fun f => (dedupExe f).2.map Field.one

def optional (key : Text) (f : Option Field) : Entries := (f.map fun f => (key, f)).toList

/-- An array is no number; a missing value is zero. -/
def secondsOf : Option Field → Except AuditError Decimal
  | none => .ok ⟨0, 0⟩
  | some (.one time) => .ok (toF time)
  | some (.many _) => .error .noMethod

section Parser

variable (hostname : Option Text) (clock : Clock)

/-- `hostname` is the variable `NODE_NAME` of the environment. -/
def eventAt (seconds : Decimal) (host docker : Entries) : Event where
  time := clock.rfc3339 seconds
  hostname := hostname
  trusted := renamed hostNames host ++ optional hostExe (exeOf docker)
  docker := renamed dockerNames docker ++ optional dockerCommand (commandOf docker)

def normalize (host docker : Entries) : Except AuditError Event := do
  let seconds ← secondsOf (host.lookup timeKey)
  if seconds.isInfinite then .error .floatDomain
  else return eventAt hostname clock seconds host docker

def parseText (line : Text) : Except AuditError (Option Event) :=
  if filterVirtControl line then
    match messageParts line with
    | none => .error (.parser ("Couldn't parse message: ".toList ++ line))
    | some (g1, g2) => do
      let host ← parseMetadata (words g1)
      let event ← normalize hostname clock host (parseMsg (words g2))
      return some event
  else .ok none

def parseAuditLine : Line → Except AuditError (Option Event)
  | .text line => parseText hostname clock line
  | .broken _ => .error .argument

/-- What the parser passes on for a line: the event, or the mark by which other lines are
left out later. -/
inductive Parsed where
  | event (e : Event)
  | notVirtControl
  deriving DecidableEq, Repr

/-- The time and the record that are yielded; `nil` and `nil` for a line that cannot be
parsed. -/
def parse (line : Line) : Except AuditError (Option (Decimal × Parsed)) :=
  match parseAuditLine hostname clock line with
  | .ok none => .ok (some (clock.now, .notVirtControl))
  | .ok (some event) =>
    match clock.parse event.time with
    | some time => .ok (some (time, .event event))
    | none => .error .argument
  | .error (.parser _) => .ok none
  | .error e => .error e

end Parser

end AggregatedLogging.Audit
