import AggregatedLogging.Ruby.Object
import AggregatedLogging.Python.Value
import AggregatedLogging.Glob.Items

/-! The script `sanitize_msg_chunks`, which takes corrupt records out of buffer
chunks, on a disk where files cannot always be opened or written. -/
namespace AggregatedLogging.Chunks

open Wire Ruby Glob
open Python (Dict Key)

def parent (path : Text) : Text :=
  let above := ((path.reverse.dropWhile (· = '/')).dropWhile (· ≠ '/')).dropWhile (· = '/')
  if above = [] then ['/'] else above.reverse

def baseName (path : Text) : Text := (path.reverse.takeWhile (· ≠ '/')).reverse

/-- `File.join`, for a name without a slash. -/
def join (dir name : Text) : Text :=
  if dir.getLast? = some '/' then dir ++ name else dir ++ '/' :: name

/-- Files by their paths, and the directories. -/
structure Disk where
  files : Dict Bytes
  dirs : List Text

namespace Disk

def bytes (disk : Disk) (path : Text) : Option Bytes := disk.files.get? (Key.str path)

def content (disk : Disk) (path : Text) : Bytes := (disk.bytes path).getD []

def write (disk : Disk) (path : Text) (s : Bytes) : Disk :=
  { disk with files := disk.files.insert (Key.str path) s }

def append (disk : Disk) (path : Text) (s : Bytes) : Disk := disk.write path (disk.content path ++ s)

def rm (disk : Disk) (path : Text) : Disk := { disk with files := disk.files.erase (Key.str path) }

def mv (disk : Disk) (source dest : Text) : Disk := (disk.write dest (disk.content source)).rm source

/-- A directory can be made in one that is there, unless a file has its path. -/
def mkdir (disk : Disk) (dir : Text) : Option Disk :=
  if parent dir ∈ disk.dirs ∧ disk.bytes dir = none then some { disk with dirs := dir :: disk.dirs }
  else none

end Disk

/-- The options of the script.  The path of the directory is no pattern.  A check of
the records can be loaded; it gives the message of its error. -/
structure Options where
  dir : Text
  dir_literal : dir.any isGlobChar = false
  dlqDir : Text
  indexField : Text
  checkRecord : Option (Object → Object → Option Text)

def dropWord : Text := "DROP".toList

def cleanSuffix : Text := ".clean".toList

def dlqSuffix : Text := ".dlq".toList

def cleanFile (file : Text) : Text := file ++ cleanSuffix

def dlqPath (opts : Options) (file : Text) : Text := join opts.dlqDir (baseName file ++ dlqSuffix)

/-- What is written to the dead letter queue about a message. -/
structure Letter where
  error : Failure
  time : Object
  record : Object

/-- The handlers count the messages; the one with a file opens it for the first. -/
inductive Handler where
  | drop (dropped : Nat)
  | file (name : Text) (opened : Bool) (dropped : Nat)

def Handler.dropped : Handler → Nat
  | .drop n | .file _ _ n => n

structure Work where
  disk : Disk
  handler : Handler

/-- The checks of a record: it has a text for the index, and the loaded check takes
it. -/
def examine (opts : Options) (time record : Object) : Except Failure Unit :=
  (record.atField opts.indexField).bind fun targetIndex => targetIndex.downcase.bind fun _ =>
    match opts.checkRecord.bind fun check => check time record with
    | none => .ok ()
    | some message => .error (.checked message)

/-- What is done with a message before it is written again. -/
def inspect (opts : Options) (obj : Object) : Except Letter Unit :=
  match obj.atIndex 0, obj.atIndex 1 with
  | .error e, _ => .error ⟨e, .nil, obj⟩
  | .ok time, .error e => .error ⟨e, time, obj⟩
  | .ok time, .ok record =>
    match examine opts time record with
    | .error e => .error ⟨e, time, if record.isNil then obj else record⟩
    | .ok () => .ok ()

def accepted (opts : Options) (objs : List Object) : List Object :=
  objs.filter fun obj => (inspect opts obj).isOk

def rejected (opts : Options) (objs : List Object) : List Letter :=
  objs.filterMap fun obj => match inspect opts obj with
    | .ok () => none
    | .error l => some l

/-- What raises an error: a path that cannot be made or opened to write, a file that
cannot be read, a dead letter, of which a part may be written, the text of a dropped
message, whose strings may have encodings that do not go together, and a clean file
that cannot be moved or removed. -/
structure Faults where
  denied : Text → Bool
  unreadable : Text → Bool
  puts : Text → Bytes → Letter → Option Bytes
  debug : Letter → Bool
  stuck : Text → Bool

def Faults.none : Faults where
  denied _ := false
  unreadable _ := false
  puts _ _ _ := .none
  debug _ := false
  stuck _ := false

def startHandler (opts : Options) (file : Text) : Handler :=
  if opts.dlqDir = dropWord then .drop 0 else .file (dlqPath opts file) false 0

/-- The state behind a computation, also behind one that was stopped. -/
def settled : Except Work Work → Work
  | .ok w | .error w => w

section Model

-- The message pack library, and how a letter is printed.
variable (faults : Faults) (codec : Codec Object) (print : Letter → Bytes) (opts : Options)

/-- `@dropped=+1` is an assignment.  The text for the log is put together whether or
not it is logged. -/
def handleMsg (l : Letter) (w : Work) : Except Work Work :=
  match w.handler with
  | .drop _ =>
    if faults.debug l then .error { w with handler := .drop 1 } else .ok { w with handler := .drop 1 }
  | .file name opened _ =>
    if !opened && faults.denied name then .error w
    else
      let disk := if opened then w.disk else w.disk.write name []
      match faults.puts name (disk.content name) l with
      | some part => .error ⟨disk.append name part, .file name true 1⟩
      | .none => .ok ⟨disk.append name (print l), .file name true 1⟩

def unpackOne (file : Text) (w : Work) (obj : Object) : Except Work Work :=
  match inspect opts obj with
  | .ok () => .ok { w with disk := w.disk.append (cleanFile file) (codec.write obj) }
  | .error l => handleMsg faults print l w

def openClean (file : Text) (w : Work) : Except Work Work :=
  if faults.denied (cleanFile file) then .error w
  else .ok { w with disk := w.disk.write (cleanFile file) [] }

/-- The loop over the messages, which ends with an error at malformed bytes. -/
def eachMessage (file : Text) (w : Work) : Except Work Work :=
  match if faults.unreadable file then .none else w.disk.bytes file with
  | .none => .error w
  | some s => do
    let behind ← (codec.readAll s).1.foldlM (unpackOne faults codec print opts file) w
    if (codec.readAll s).2 = .malformed then .error behind else .ok behind

/-- The clean file takes the place of the chunk when a message was dropped. -/
def replaceChunk (file : Text) (w : Work) : Except Work Work :=
  if faults.stuck file then .error w
  else if 0 < w.handler.dropped then .ok { w with disk := w.disk.mv (cleanFile file) file }
  else .ok { w with disk := w.disk.rm (cleanFile file) }

def unpack (file : Text) (w : Work) : Except Work Work := do
  let started ← openClean faults file w
  let behind ← eachMessage faults codec print opts file started
  replaceChunk faults file behind

def initDlqHandler (file : Text) (disk : Disk) : Option Work :=
  if opts.dlqDir = dropWord then some ⟨disk, .drop 0⟩
  else
    (if opts.dlqDir ∈ disk.dirs then some disk
      else if faults.denied opts.dlqDir then .none else disk.mkdir opts.dlqDir).map fun disk =>
      ⟨disk, .file (dlqPath opts file) false 0⟩

/-- The turn of a file: an error behind the state in which it is raised. -/
def turn (disk : Disk) (file : Text) : Except Work Work :=
  match initDlqHandler faults opts file disk with
  | .none => .error ⟨disk, startHandler opts file⟩
  | some w => unpack faults codec print opts file w

/-- Errors are logged, and the next file is done. -/
def sanitizeFile (disk : Disk) (file : Text) : Disk :=
  if cleanSuffix.isSuffixOf file then disk
  else (settled (turn faults codec print opts disk file)).disk

def sanitize (files : List Text) (disk : Disk) : Disk :=
  files.foldl (sanitizeFile faults codec print opts) disk

/-- What is logged about a file when its turn is over, nothing without a dropped
record or after an error. -/
def sanitizeReport (disk : Disk) (file : Text) : Option Nat :=
  if cleanSuffix.isSuffixOf file then none
  else
    match turn faults codec print opts disk file with
    | .error _ => none
    | .ok w => if 0 < w.handler.dropped then some w.handler.dropped else none

def Fails (disk : Disk) (file : Text) : Prop :=
  ∃ w, turn faults codec print opts disk file = .error w

end Model

/-- The pattern `dir/*` stands for the files whose names do not begin with a dot. -/
def isChild (dir path : Text) : Bool :=
  let name := path.drop (dir.length + 1)
  (dir ++ ['/']).isPrefixOf path && !name.isEmpty && !name.contains '/' && !(name.head? = some '.')

/-- The files of the directory in some order. -/
def IsListing (opts : Options) (disk : Disk) (files : List Text) : Prop :=
  files.Nodup ∧ ∀ g, g ∈ files ↔ (disk.bytes g).isSome = true ∧ isChild opts.dir g = true

def IsChunk (opts : Options) (disk : Disk) (file : Text) : Prop :=
  (disk.bytes file).isSome = true ∧ isChild opts.dir file = true ∧ ¬ cleanSuffix <:+ file

/-- No chunk has the name of the dead letters of another one. -/
def Separate (opts : Options) (disk : Disk) (file : Text) : Prop :=
  opts.dlqDir = dropWord ∨
    ∀ g, IsChunk opts disk g → dlqPath opts file ≠ g ∧ dlqPath opts g ≠ file

end AggregatedLogging.Chunks
