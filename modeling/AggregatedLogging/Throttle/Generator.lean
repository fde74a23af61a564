import AggregatedLogging.Throttle.Positions
import AggregatedLogging.Throttle.Settings
import AggregatedLogging.Python.Except

/-! The generator of the throttle sources: `generate_throttle_configs.rb`. -/
namespace AggregatedLogging.Throttle

open Glob
open Python (Dict Key Order)

abbrev Env := Text → Option Text

namespace Env

def contLogDir (env : Env) : Text := (env "CONT_LOG_DIR".toList).getD "/var/log/containers".toList

def contPosFile (env : Env) : Text :=
  (((env "CONTAINER_POS_FILE".toList).or (env "JSON_FILE_POS_FILE".toList)).or
    (env "CRIO_POS_FILE".toList)).getD "/var/log/es-containers.log.pos".toList

def readFromHead (env : Env) : Text :=
  (((env "CONTAINER_READ_FROM_HEAD".toList).or (env "JSON_FILE_READ_FROM_HEAD".toList)).or
    (env "CRIO_READ_FROM_HEAD".toList)).getD "true".toList

def contLogsPath (env : Env) : Text :=
  (((env "CONTAINER_LOGS_PATH".toList).or (env "JSON_FILE_PATH".toList)).or
    (env "CRIO_PATH".toList)).getD (env.contLogDir ++ "/*.log".toList)

def containerPosFilePrefix (env : Env) : Text :=
  (env "CONT_POS_FILE_PREFIX".toList).getD "/var/log/es-container-".toList

def throttlePrefix (env : Env) : Text :=
  (env "THROTTLE_PREFIX".toList).getD "/etc/fluent/configs.d/dynamic/input-docker-".toList

def defaultOpsProjects (env : Env) : List Text :=
  match env "OCP_OPERATIONS_PROJECTS".toList with
  | some projects => split projects
  | none =>
    ["default".toList, "openshift".toList, "openshift-infra".toList, "kube-system".toList]

def getContPosFileName (env : Env) (name : Text) : Text :=
  env.containerPosFilePrefix ++ name ++ ".log.pos".toList

def getProjectPattern (env : Env) (name : Text) : Text :=
  env.contLogDir ++ "/*_".toList ++ name ++ "_*.log".toList

end Env

/-- A day, as `%Y%m%d` prints it. -/
structure Day where
  digits : Text
  digits_length : digits.length = 8
  digits_valid : digits.all Char.isDigit = true

def Env.getFileName (env : Env) (name : Text) (today : Day) : Text :=
  env.throttlePrefix ++ (name ++ '-' :: (today.digits ++ ".conf".toList))

/-- The pieces of a file glob.  Of the characters that are written to it, only
the star is special; it stands for characters within one directory. -/
def globItem (c : Char) : Item := if c = '*' then .many '/' else .lit c

def matchesPath (pattern path : Text) : Bool := exactly (pattern.map globItem) path

/-- What is written to a throttle file: the beginning of a source, a setting, and
the end of the source. -/
inductive Piece where
  | header (project path posFile : Text)
  | setting (s : Setting)
  | footer (readFromHead : Text)
  deriving DecidableEq, Repr

def parseLines : List Text :=
  ["  <parse>\n".toList, "    @type multi_format\n".toList, "    <pattern>\n".toList,
    "      format json\n".toList, "      time_format '%Y-%m-%dT%H:%M:%S.%N%Z'\n".toList,
    "      keep_time_key true\n".toList, "    </pattern>\n".toList, "    <pattern>\n".toList,
    "      format regexp\n".toList,
    "      expression /^(?<time>.+) (?<stream>stdout|stderr)( (?<logtag>.))? (?<log>.*)$/\n".toList,
    "      time_format '%Y-%m-%dT%H:%M:%S.%N%:z'\n".toList, "      keep_time_key true\n".toList,
    "    </pattern>\n".toList, "  </parse>\n".toList]

def sourceOpen : Text := "<source>\n".toList

def sourceClose : Text := "</source>\n".toList

/-- The lines that a piece is meant to be. -/
def Piece.lines : Piece → List Text
  | .header project path posFile =>
    [sourceOpen, "  @type tail\n".toList, "  @id ".toList ++ project ++ "-input\n".toList,
      "  @label @INGRESS\n".toList, "  path ".toList ++ path ++ ['\n'],
      "  pos_file ".toList ++ posFile ++ ['\n']]
  | .setting s => [s.text]
  | .footer readFromHead =>
    ["  tag kubernetes.*\n".toList, "  read_from_head \"".toList ++ readFromHead ++ "\"\n".toList] ++
      parseLines ++ [sourceClose]

def Piece.text (p : Piece) : Text := p.lines.flatten

structure DefaultInput where
  path : Text
  posFile : Text
  readFromHead : Text
  excludePath : List Text
  deriving DecidableEq, Repr

/-- The position files, the generated files, and how often the date was asked
for. -/
structure World where
  positions : Files
  conf : Dict (List Piece)
  defaultInput : Option DefaultInput
  asked : Nat

inductive Error where
  | regexp
  | noSuchDirectory
  | nameTooLong
  deriving DecidableEq, Repr

/-- An exception leaves the world as it was when it was raised. -/
structure Stopped where
  error : Error
  world : World

abbrev Outcome := Except Stopped World

def operations : Text := ".operations".toList

/-- The name of a project that adds no directory to the path. -/
def opensFile (name : Text) : Bool := !name.contains '/'

def baseName (path : Text) : Text := (path.reverse.takeWhile (· ≠ '/')).reverse

/-- The longest file name that the kernel takes, in octets. -/
def nameMax : Nat := 255

def fitsName (path : Text) : Bool := decide (Text.byteSize (baseName path) ≤ nameMax)

section Generator

-- The clock gives the answers of `Date.today`, one after the other.
variable (env : Env) (clock : Nat → Day)

def World.fileName (w : World) (name : Text) : Text := env.getFileName name (clock w.asked)

def World.tick (w : World) : World := { w with asked := w.asked + 1 }

def World.put (w : World) (file : Text) (pieces : List Piece) : World :=
  { w with conf := w.conf.insert (Key.str file) pieces }

def World.pieces (w : World) (file : Text) : Option (List Piece) := w.conf.get? (Key.str file)

def World.append (w : World) (file : Text) (p : Piece) : World :=
  w.put file ((w.pieces file).getD [] ++ [p])

def World.move (w : World) (sourceFile destFile project : Text) : Outcome :=
  match movePosFileProjectEntry w.positions sourceFile destFile project with
  | none => .error ⟨.regexp, w⟩
  | some positions => .ok { w with positions }

/-- The operations projects share a source. -/
def seedPath (project : Text) : Text :=
  if project = operations then
    Text.join [','] (env.defaultOpsProjects.map env.getProjectPattern)
  else env.getProjectPattern project

def seedPosFile (project : Text) : Text :=
  if project = operations then env.getContPosFileName "openshift-operations".toList
  else env.getContPosFileName project

def seedFile (file project : Text) (w : World) : Outcome :=
  if opensFile project then
    let seeded := w.put file [.header project (seedPath env project) (seedPosFile env project)]
    if project = operations then
      env.defaultOpsProjects.foldlM
        (fun w p => w.move env.contPosFile (seedPosFile env project) p) seeded
    else seeded.move env.contPosFile (seedPosFile env project) project
  else .error ⟨.noSuchDirectory, w⟩

/-- No file with too long a name is there, and none can be opened. -/
def writeToFile (project : Text) (s : Setting) (w : World) : Outcome :=
  let file := w.fileName env clock project
  let seeded :=
    if (w.pieces file).isSome then .ok w.tick
    else if opensFile project && !fitsName file then .error ⟨.nameTooLong, w.tick⟩
    else seedFile env file project w.tick
  seeded.map fun w => w.append file (.setting s)

def closeFile (project : Text) (w : World) : World :=
  let file := w.fileName env clock project
  if (w.pieces file).isSome then w.tick.append file (.footer env.readFromHead) else w.tick

def excludedPatterns (project : Text) : List Text :=
  if project = operations then env.defaultOpsProjects.map env.getProjectPattern
  else [env.getProjectPattern project]

structure Progress where
  world : World
  excluded : List Text
  throttling : Bool

/-- One setting of a project; the flag tells whether the file needs its end. -/
def evaluateSetting (name : Text) (l : Progress × Bool) (s : Key × Value) :
    Except Stopped (Progress × Bool) :=
  if validate s.1 s.2 then
    (writeToFile env clock name ⟨s.1.text?.getD [], s.2.toS⟩ l.1.world).map fun w =>
      (⟨w, l.1.excluded ++ excludedPatterns env name, true⟩, true)
  else .ok l

def evaluateProject (l : Progress) (m : Key × Options) : Except Stopped Progress :=
  match m.1.text?, m.2 with
  | some name, .hash settings =>
    (settings.entries.foldlM (evaluateSetting env clock name) (l, false)).map fun l =>
      if l.2 then { l.1 with world := closeFile env clock name l.1.world } else l.1
  | _, _ => .ok l

/-- The files that `prefix*.log.pos` stands for. -/
def isThrottleFile (path : Text) : Bool :=
  matchesPath (env.containerPosFilePrefix ++ "*.log.pos".toList) path

/-- These files, in the order of the directory. -/
def getAllThrottleFiles (o : Order) (positions : Files) : List Text :=
  ((o.keys positions).filterMap Key.text?).filter (isThrottleFile env)

def revertThrottle (o : Order) (w : World) : Outcome :=
  (getAllThrottleFiles env o w.positions).foldlM
    (fun w file => w.move file env.contPosFile ['.', '*']) w

/-- The entries go back unless a project is throttled. -/
def Progress.settled (o : Order) (l : Progress) : Outcome :=
  if l.throttling then .ok l.world else revertThrottle env o l.world

structure InitOptions where
  contLogsPath : Option Text := none
  contPosFile : Option Text := none
  readFromHead : Option Text := none

def createDefaultContainerInput (excluded : List Text) (options : InitOptions) : DefaultInput where
  path := options.contLogsPath.getD env.contLogsPath
  posFile := options.contPosFile.getD env.contPosFile
  readFromHead := options.readFromHead.getD env.readFromHead
  excludePath := excluded

def generateThrottleConfigs (o : Order) (d : Document) (options : InitOptions) (w : World) :
    Outcome := do
  let l ← d.parsed.entries.foldlM (evaluateProject env clock) ⟨w, [], false⟩
  let w ← l.settled env o
  .ok { w with defaultInput := some (createDefaultContainerInput env l.excluded options) }

def mainOptions : InitOptions where
  contLogsPath := some env.contLogsPath
  contPosFile := some env.contPosFile
  readFromHead := some env.readFromHead

def run (o : Order) (d : Document) (w : World) : Outcome :=
  generateThrottleConfigs env clock o d (mainOptions env) w

end Generator

end AggregatedLogging.Throttle
