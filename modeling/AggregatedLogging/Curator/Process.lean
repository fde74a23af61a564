import AggregatedLogging.Curator.Convert

/-! The converter as a process, and the script that starts it. -/
namespace AggregatedLogging.Curator

open Python

structure YamlLibrary where
  load : Text → Except ErrorClass Yaml
  dump : List (Nat × Action) → Text

/-- The contents of the files that exist. -/
abbrev Files := Text → Option Text

def Files.write (files : Files) (path content : Text) : Files :=
  fun q => if q = path then some content else files q

/-- A run of the converter: what it returns or raises, and the files that it
writes, in order. -/
structure Run where
  result : Except Failure Nat
  writes : List (Text × Text) := []

def Run.after (r : Run) (files : Files) : Files :=
  r.writes.foldl (fun fs w => fs.write w.1 w.2) files

/-- The exit status of the process; an uncaught exception gives status one. -/
def Run.status (r : Run) : Nat :=
  match r.result with
  | .ok n => n
  | .error _ => 1

def writeLocation (env : Env) : Text := env.home.getD "/opt/app-root/src".toList ++ "/actions.yaml".toList

def actionsPath (env : Env) : Text := env.actionsFile.getD (writeLocation env)

def legacyText (env : Env) (files : Files) : Option Text :=
  env.legacyConfig.bind fun path => if path = [] then none else files path

def isEmptyActionsFile (lib : YamlLibrary) (text : Text) : Except ErrorClass Bool := do
  match ← lib.load text with
  | .null => return true
  | actions => return !(← actions.hasMember "actions".toList)

def suppliedActions (lib : YamlLibrary) (env : Env) (files : Files) : Except ErrorClass Bool :=
  match files (actionsPath env) with
  | none => .ok false
  | some text => (isEmptyActionsFile lib text).map (!·)

def numbered (actions : List Action) : List (Nat × Action) :=
  actions.zipIdx.map fun p => (p.2 + 1, p.1)

def generateFile (lib : YamlLibrary) (env : Env) (o : Order) (internal : Internal)
    (writes : List (Text × Text)) : Run :=
  match generate env o internal with
  | .error e => ⟨.error e, writes⟩
  | .ok actions => ⟨.ok 1, writes ++ [(writeLocation env, lib.dump (numbered actions))]⟩

/-- Convert the text of a configuration.  Only invalid values are reported; the
file is parsed a second time for the generation. -/
def convertConfig (lib : YamlLibrary) (env : Env) (o : Order) (text : Text) : Run :=
  match accept env o (lib.load text) with
  | .error e => if e.errorClass = .valueError then ⟨.ok 2, []⟩ else ⟨.error e, []⟩
  | .ok _ =>
    match parse env o (lib.load text) with
    | .error e => ⟨.error e, []⟩
    | .ok internal => generateFile lib env o internal []

/-- Default actions, when there is no configuration file: what is in the place of
the actions file, or nothing, is parsed as one. -/
def convertDefaults (lib : YamlLibrary) (env : Env) (o : Order) (files : Files) : Run :=
  let text := (files (writeLocation env)).getD []
  match parse env o (lib.load text) with
  | .error e => ⟨.error e, [(writeLocation env, text)]⟩
  | .ok internal => generateFile lib env o internal [(writeLocation env, text)]

def convert (lib : YamlLibrary) (env : Env) (o : Order) (files : Files) : Run :=
  match suppliedActions lib env files with
  | .error c => ⟨.error (.builtin c), []⟩
  | .ok true => ⟨.ok 0, []⟩
  | .ok false =>
    match legacyText env files with
    | some text => convertConfig lib env o text
    | none => convertDefaults lib env o files

/-- The actions file that `run.sh` starts the curator with. -/
def curatorActions (env : Env) (status : Nat) : Option Text :=
  match status with
  | 1 => some (env.home.getD [] ++ "/actions.yaml".toList)
  | 2 => none
  | _ => some (env.actionsFile.getD [])

end AggregatedLogging.Curator
