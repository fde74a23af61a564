import AggregatedLogging.Ruby.Json
import AggregatedLogging.Python.Except
import AggregatedLogging.Regex.Escape
import AggregatedLogging.Regex.Compile
import AggregatedLogging.Regex.Matching

/-! The outputs `syslog_buffered` and `syslog`.  Both fill in a packet of the gem
`syslog_protocol`, each with its own copy of the code. -/
namespace AggregatedLogging.Syslog

open Ruby

structure Packet (τ : Type) where
  hostname : Json
  severity : Json
  facility : Json
  time : τ
  tag : Text
  content : Json

/-- What the outputs call of the gem and of the standard library: the checks of
the setters, the reading of times, and the conversion to a text. -/
structure Library (τ : Type) where
  acceptsHostname : Json → Bool
  acceptsSeverity : Json → Bool
  acceptsFacility : Json → Bool
  acceptsTag : Text → Bool
  parseTime : Text → Option τ
  toS : Json → Text
  assemble : Packet τ → Text

/-- Printable ASCII without the space. -/
def isGraph (c : Char) : Bool := '!' ≤ c && c ≤ '~'

def Library.ChecksTags (lib : Library τ) : Prop :=
  ∀ t, lib.acceptsTag t = true ↔ t ≠ [] ∧ t.length ≤ 32 ∧ t.all isGraph = true

/-- The longest beginning of a text that has no more bytes. -/
def fits (room : Nat) : Text → Text
  | [] => []
  | c :: s => if c.utf8Size ≤ room then c :: fits (room - c.utf8Size) s else []

def maxSize : Nat := 1024

def isHexDigit (c : Char) : Bool := c.isDigit || ('a' ≤ c && c ≤ 'f')

/-- The configuration of an output, as it is written.  A text of hexadecimal
digits is drawn when the output is configured. -/
structure Config where
  hostname : Text := []
  removeTagPrefix : Option Text := none
  tagKey : List Json := []
  facility : Option Text := none
  severity : Option Text := none
  useRecord : Option Text := none
  payloadKey : Option Text := none
  randomString : Text
  random_length : randomString.length = 32
  random_hex : randomString.all isHexDigit = true

structure Event (τ : Type) where
  tag : Text
  now : τ
  record : Fields

def orNil (s : Option Text) : Json := (s.map Json.str).getD .null

/-- The parameter `facility` has a default, the variable `@facilty` has none. -/
def Config.facilityParam (cfg : Config) : Json := .str (cfg.facility.getD "user".toList)

def Config.payload (cfg : Config) : Text := cfg.payloadKey.getD "message".toList

def removeFirst (r : Regex.Pattern) (s : Text) : Text :=
  (r.search s).elim s fun m => m.start.past.reverse ++ m.final.cursor.rest

def Config.strippedTag (cfg : Config) (tag : Text) : Text :=
  ((cfg.removeTagPrefix.bind fun p => Regex.compile .ruby ('^' :: Regex.quote p)).map
    fun r => removeFirst r tag).getD tag

/-- A tag is trimmed to 32 characters. -/
def trimmed (tag : Text) : Text := tag.take 32

/-- Brackets and blanks are left out of a tag from the record. -/
def cleanTag (tag : Text) : Text :=
  (trimmed tag).filter fun c => !(c = '[' || c = ']' || isSpace c)

/-- A setter, which raises for a value that it does not accept. -/
def accepted (accepts : α → Bool) (value : α) : Except RubyError α :=
  if accepts value then .ok value else .error .argumentError

def syslogFacility : List Text := ["systemd".toList, "u".toList, "SYSLOG_FACILITY".toList]

section Outputs

variable (lib : Library τ) (cfg : Config)

def hostnameOf (record : Fields) : Json :=
  if cfg.useRecord.isSome then Json.orElse (record.lookup "hostname".toList) (.str cfg.hostname)
  else .str cfg.hostname

def severityOf (record : Fields) : Json :=
  let level := record.lookup "level".toList
  if cfg.useRecord.isSome then
    if level.any (Json.isText · "warning".toList) then .str "warn".toList
    else Json.orElse level (orNil cfg.severity)
  else orNil cfg.severity

/-- The facility of a journal record, which may be a number or a text. -/
def journalFacility (value : Json) (n : Int) : Json :=
  if 1 ≤ n ∧ n ≤ 23 then .int n
  else if value.isText ['0'] then .int 0
  else Json.orElse (some value) cfg.facilityParam

def plainFacility (record : Fields) : Json :=
  if (record.lookup "_KERNEL_DEVICE".toList).isSome then .str "kern".toList
  else Json.orElse (record.lookup "facility".toList) cfg.facilityParam

def recordFacility (record : Fields) : Except RubyError Json := do
  match ← dig (.obj record) syslogFacility with
  | some value => return journalFacility cfg value (← value.toI)
  | none => return plainFacility cfg record

def setHeader (record : Fields) : Except RubyError (Json × Json × Json) :=
  if cfg.useRecord.isSome then do
    let hostname ← accepted lib.acceptsHostname (hostnameOf cfg record)
    let severity ← accepted lib.acceptsSeverity (severityOf cfg record)
    let facility ← accepted lib.acceptsFacility (← recordFacility cfg record)
    return (hostname, severity, facility)
  else do
    let hostname ← accepted lib.acceptsHostname (hostnameOf cfg record)
    let facility ← accepted lib.acceptsFacility (orNil cfg.facility)
    let severity ← accepted lib.acceptsSeverity (severityOf cfg record)
    return (hostname, severity, facility)

def timeOf (e : Event τ) : Except RubyError τ :=
  match (e.record.lookup "time".toList).filter Json.truthy with
  | none => .ok e.now
  | some (.str s) =>
    match lib.parseTime s with
    | none => .error .argumentError
    | some t => .ok t
  | some _ => .error .typeError

/-- The first key at which the record has a text gives the tag. -/
def tagFromKeys (record : Fields) : List Json → Except RubyError (Option Text)
  | [] => .ok none
  | .str key :: keys => do
    match ← dig (.obj record) (splitDots key) with
    | some (.str t) => return some (← accepted lib.acceptsTag (cleanTag t))
    | _ => tagFromKeys record keys
  | _ :: _ => .error .noMethodError

/-- The tag that the packet has before it falls back to that of the event. -/
def recordTag (record : Fields) : Except RubyError Text := do
  let random ← accepted lib.acceptsTag cfg.randomString
  let found ← tagFromKeys lib record (if record.isEmpty then [] else cfg.tagKey)
  return found.getD random

def fallbackTag (tag : Text) : Except RubyError Text :=
  accepted lib.acceptsTag (trimmed (cfg.strippedTag tag))

/-- The tag in the packet stays unless it is the drawn text. -/
def settledTag (tag random set : Text) : Except RubyError Text :=
  if set = random then fallbackTag lib cfg tag else .ok set

def kubernetesKeys : List Text :=
  ["namespace_name".toList, "container_name".toList, "pod_name".toList]

/-- A text can be appended to a text, other values cannot. -/
def kubernetesField (kubernetes : Fields) (key : Text) : Except RubyError Text :=
  match kubernetes.lookup key with
  | none => .ok []
  | some (.str s) => .ok (key ++ '=' :: (s ++ [',', ' ']))
  | some _ => .error .typeError

def namedMessage (names : Text) : Option Json → Except RubyError Json
  | some (.str s) => .ok (.str (names ++ cfg.payload ++ '=' :: s))
  | _ => .error .typeError

def contentOf (record : Fields) : Except RubyError Json :=
  let payload := record.lookup cfg.payload
  match if cfg.useRecord.isSome ∧ payload.any Json.truthy then record.lookup "kubernetes".toList
    else none with
  | none => .ok (payload.getD .null)
  | some (.obj kubernetes) => do
    let fields ← kubernetesKeys.mapM (kubernetesField kubernetes)
    namedMessage cfg fields.flatten payload
  | some _ => .error .noMethodError

/-- `send_to_syslog` up to the write.  Every field of the shared packet is set
before the packet is copied, so nothing of the last one is left. -/
def sendToSyslog (e : Event τ) : Except RubyError (Packet τ) := do
  let (hostname, severity, facility) ← setHeader lib cfg e.record
  let time ← timeOf lib e
  let set ← recordTag lib cfg e.record
  let tag ← settledTag lib cfg e.tag cfg.randomString set
  let content ← contentOf cfg e.record
  return { hostname, severity, facility, time, tag, content }

/-- What is written to the socket for the records of a chunk, one write each. -/
def write (chunk : List (Event τ)) : Except RubyError (List Text) :=
  chunk.mapM fun e => (sendToSyslog lib cfg e).map fun packet => lib.assemble packet ++ ['\n']

/-- A name that is neither a variable nor a method, as it has no `@`. -/
def randomString : Except RubyError Text := .error .nameError

/-- The body of the loop in `emit`, up to the datagram. -/
def emit (e : Event τ) : Except RubyError (Packet τ) := do
  let (hostname, severity, facility) ← setHeader lib cfg e.record
  let time ← timeOf lib e
  let set ← recordTag lib cfg e.record
  let random ← randomString
  let tag ← settledTag lib cfg e.tag random set
  let content ← contentOf cfg e.record
  return { hostname, severity, facility, time, tag, content }

end Outputs

def severityNames : List Text :=
  ["emerg".toList, "alert".toList, "crit".toList, "err".toList, "warn".toList, "notice".toList,
    "info".toList, "debug".toList]

def facilityNames : List Text :=
  ["kern".toList, "user".toList, "mail".toList, "daemon".toList, "auth".toList, "syslog".toList,
    "lpr".toList, "news".toList, "uucp".toList, "cron".toList, "authpriv".toList, "ftp".toList,
    "ntp".toList, "audit".toList, "alert".toList, "at".toList, "local0".toList, "local1".toList,
    "local2".toList, "local3".toList, "local4".toList, "local5".toList, "local6".toList,
    "local7".toList]

def numberOf (names : List Text) : Json → Option Nat
  | .str s => names.findIdx? fun n => n = s
  | .int n => if 0 ≤ n ∧ n < names.length then some n.toNat else none
  | _ => none

/-- A time that is printed on one line. -/
abbrev Timestamp := { t : Text // '\n' ∉ t }

def priority (p : Packet Timestamp) : Nat :=
  (numberOf facilityNames p.facility).getD 0 * 8 + (numberOf severityNames p.severity).getD 0

def isHostname : Json → Bool
  | .str h => !h.isEmpty && !h.any isSpace
  | _ => false

def showJson : Json → Text
  | .str s => s
  | .int n => (toString n).toList
  | _ => []

def packetHeader (p : Packet Timestamp) : Text :=
  '<' :: (Nat.toDigits 10 (priority p) ++ ['>'] ++ p.time.val ++ [' '] ++ showJson p.hostname ++ [' '])

def gem : Library Timestamp where
  acceptsHostname := isHostname
  acceptsSeverity v := (numberOf severityNames v).isSome
  acceptsFacility v := (numberOf facilityNames v).isSome
  acceptsTag t := decide (t ≠ [] ∧ t.length ≤ 32 ∧ t.all isGraph = true)
  parseTime _ := none
  toS := showJson
  assemble p := fits maxSize (packetHeader p ++ p.tag ++ [':', ' '] ++ showJson p.content)

theorem gem_checksTags : gem.ChecksTags := fun _ => decide_eq_true_iff

end AggregatedLogging.Syslog
