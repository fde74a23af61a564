import AggregatedLogging.CompactJson
import AggregatedLogging.Shell
import AggregatedLogging.Lines
import AggregatedLogging.Regex.Outcomes

/-! The script that removes index patterns without a uid.  It scrolls through all index patterns,
and what it gets from Elasticsearch it hands to Python as a word of the shell. -/
namespace AggregatedLogging.Elasticsearch

open Calls
open CompactJson hiding run
open Shell hiding Value

def isNameChar (c : Char) : Bool :=
  ('a' ≤ c && c ≤ 'z') || ('A' ≤ c && c ≤ 'Z') || ('0' ≤ c && c ≤ '9') || c = '-'

/-- The names of the indices of Kibana. -/
def isIndexChar (c : Char) : Bool := isNameChar c || c = '.' || c = '_'

structure Doc where
  index : Text
  id : Text
  plain : index.all isIndexChar = true

/-- Scroll ids are in Base64. -/
def isScrollChar (c : Char) : Bool := isNameChar c || c = '+' || c = '/' || c = '=' || c = '_'

/-- The index patterns in the order of the scroll, and the scroll id that comes with each page. -/
structure Cluster where
  docs : List Doc
  scrollId : Nat → Text
  nonempty : ∀ i, scrollId i ≠ []
  plain : ∀ i, (scrollId i).all isScrollChar = true

def size : Nat := 100

def Cluster.page (c : Cluster) (i : Nat) : List Doc := (c.docs.drop (size * i)).take size

section Replies

def scrollIdKey : Text := "_scroll_id".toList
def hitsKey : Text := "hits".toList
def totalKey : Text := "total".toList
def errorsKey : Text := "errors".toList
def deleteKey : Text := "delete".toList
def indexKey : Text := "_index".toList
def typeKey : Text := "_type".toList
def idKey : Text := "_id".toList
def indexPattern : Text := "index-pattern".toList

def hit (doc : Doc) : Value :=
  .object [(indexKey, .string doc.index), (typeKey, .string indexPattern),
    (idKey, .string doc.id)]

def Cluster.reply (c : Cluster) (i : Nat) : List (Text × Value) :=
  [(scrollIdKey, .string (c.scrollId i)),
    (hitsKey, .object [(totalKey, .number c.docs.length), (hitsKey, .array ((c.page i).map hit))])]

def item (key : Text × Text) : Value :=
  .object [(deleteKey, .object [(indexKey, .string key.1), (typeKey, .string indexPattern),
    (idKey, .string key.2)])]

def bulkReply (keys : List (Text × Text)) : List (Text × Value) :=
  [(errorsKey, .bool false), ("items".toList, .array (keys.map item))]

def errorReply : List (Text × Value) :=
  [("error".toList, .string "Malformed action/metadata line".toList), ("status".toList, .number 400)]

end Replies

section Python

/-- `resp[key]`, which raises without the key. -/
def field (v : Value) (key : Text) : Option Value :=
  match v with
  | .object ms => ms.lookup key
  | _ => none

def text? : Value → Option Text
  | .string s => some s
  | _ => none

/-- What `print` writes for a value; a text that is not ASCII cannot be written to a pipe. -/
def printed : Value → Option Text
  | .null => some "None".toList
  | .bool true => some "True".toList
  | .bool false => some "False".toList
  | .number n => some (digits n)
  | .string s => if s.all (fun c => c.toNat < 128) then some s else none
  | _ => none

/-- A function that pipes `echo $1` to Python and fails when Python raises. -/
def python (f : Value → Option α) (arg : Text) : Except Nat α :=
  match (load (echo arg)).bind f with
  | some a => .ok a
  | none => .error 1

def getScrollId : Text → Except Nat Text :=
  python fun resp => (field resp scrollIdKey).bind printed

def getErrors : Text → Except Nat Text :=
  python fun resp => (field resp errorsKey).bind printed

def number? : Value → Option Int
  | .number n => some n
  | _ => none

/-- Prints zero when anything raises. -/
def getHits (arg : Text) : Int :=
  (((load (echo arg)).bind fun resp => (field resp hitsKey).bind fun hits =>
    (field hits totalKey).bind number?)).getD 0

def projectPattern : Text := "^project\\.([a-zA-Z0-9\\-]*)\\.\\*$".toList

/-- `pattern.match(id)`. -/
def isProjectPattern (id : Text) : Bool :=
  ((Regex.compile .python projectPattern).bind fun p => p.matchStart id).isSome

def beforeIndex : Text := "\x7b\"delete\":\x7b\"_index\":\"".toList
def beforeId : Text := "\", \"_type\":\"index-pattern\", \"_id\":\"".toList
def behindId : Text := "\"\x7d\x7d".toList

def deleteLine (key : Text × Text) : Text :=
  beforeIndex ++ (key.1 ++ (beforeId ++ (key.2 ++ behindId)))

def hitLine (r : Value) : Option Text := do
  let id ← (field r idKey).bind text?
  if isProjectPattern id then do
    let index ← (field r indexKey).bind text?
    return deleteLine (index, id) ++ ['\n']
  else return []

def hitLines (hits : List Value) : Option Text := do
  let printed ← hits.mapM hitLine
  return if printed.flatten = [] then [] else printed.flatten ++ [' ', '\n']

def hitsOf : Value → Option (List Value)
  | .array hits => some hits
  | _ => none

/-- The payload, and the hits that Python has looked at. -/
def getDeletePayload : Text → Except Nat (Text × List Value) :=
  python fun resp => (field resp hitsKey).bind fun hits => (field hits hitsKey).bind fun list =>
    (hitsOf list).bind fun hits => (hitLines hits).map fun payload => (substitution payload, hits)

end Python

section Server

/-- The index and the id in a line of a bulk request. -/
def deletion (v : Value) : Option (Text × Text) := do
  let action ← field v deleteKey
  let index ← (field action indexKey).bind text?
  let id ← (field action idKey).bind text?
  return (index, id)

/-- The lines of a bulk request; what stands behind the last line break is none. -/
def bulkLines (body : Text) : List Text :=
  ((Text.lines body).filter fun l => l.getLast? = some '\n').map List.dropLast

def bulkActions (body : Text) : Option (List (Text × Text)) :=
  (bulkLines body).mapM fun line => (load line).bind deletion

/-- What Elasticsearch has handed out, deleted and released; the hits at which the script has
looked; and its variables. -/
structure World where
  pages : Nat := 0
  received : List Text := []
  deleted : List (Text × Text) := []
  released : List Text := []
  evaluated : List Value := []
  response : Text := []
  scrollIds : List Text := []
  success : Nat := 0
  failures : Nat := 0
  counter : Nat := 0

variable (c : Cluster)

def World.handOut (w : World) : World :=
  { w with
    pages := w.pages + 1
    received := w.received ++ [c.scrollId w.pages]
    response := dump (.object (c.reply w.pages)) }

/-- Only the latest scroll id leads to the next page. -/
def World.scroll (sid : Text) (w : World) : World :=
  if 0 < w.pages ∧ sid = c.scrollId (w.pages - 1) then w.handOut c
  else { w with response := dump (.object errorReply) }

def World.bulk (body : Text) (w : World) : World :=
  match bulkActions body with
  | some keys =>
    { w with deleted := w.deleted ++ keys, response := dump (.object (bulkReply keys)) }
  | none => { w with response := dump (.object errorReply) }

def World.release (sid : Text) (w : World) : World := { w with released := w.released ++ [sid] }

end Server

section Script

def World.count (w : World) : World :=
  if getErrors (unquoted w.response) = .ok "False".toList then
    { w with success := w.success + 1 }
  else { w with failures := w.failures + 1 }

def World.remove (payload : Text) (w : World) : World :=
  if payload = [] then w else (w.bulk payload).count

variable (c : Cluster)

def fetchPage : Command World PUnit := do
  let w ← get
  let scrollId ← yields (getScrollId w.response)
  let (payload, hits) ← yields (getDeletePayload (unquoted w.response))
  let w : World :=
    { w with
      scrollIds := w.scrollIds ++ words scrollId
      evaluated := w.evaluated ++ hits }
  let w := w.remove payload
  set (World.scroll c scrollId { w with counter := w.counter + 1 })

/-- `tot_fetches` is the number of full pages and one more. -/
def totalFetches (totHits : Int) : Int := totHits.tdiv size + 1

/-- The script; it tells whether the loop has come to its end within `n` rounds. -/
def removeIndexPatterns (n : Nat) : Command World Bool := do
  let w ← get
  let w := w.handOut c
  let totHits := getHits w.response
  set (if totHits = 0 then { w with counter := 1 } else w)
  let ended ← whileLoop (fun w => decide (w.counter < totalFetches totHits)) (fetchPage c) n
  if ended then do
    let w ← get
    set (w.scrollIds.foldl (fun w sid => w.release sid) w)
    return true
  else return false

end Script

section Claim

/-- `project.NAME.*`. -/
def namesProject (id : Text) : Bool :=
  "project.".toList.isPrefixOf id && ".*".toList.isSuffixOf id && 10 ≤ id.length &&
    ((id.drop 8).take (id.length - 10)).all isNameChar

def Doc.key (doc : Doc) : Text × Text := (doc.index, doc.id)

/-- The script has come to its end, has looked at every document once, has deleted those of
projects, and has released every scroll id that it was given. -/
structure Clean (c : Cluster) (w : World) : Prop where
  evaluated : w.evaluated = c.docs.map hit
  deleted : w.deleted = (c.docs.filter fun doc => namesProject doc.id).map Doc.key
  released : ∀ sid ∈ w.received, sid ∈ w.released

def Cleans (c : Cluster) : Prop :=
  ∃ n w, run (removeIndexPatterns c n) {} = (.ok true, w) ∧ Clean c w

def BulksSucceed (c : Cluster) : Prop := ∀ n, (run (removeIndexPatterns c n) {}).2.failures = 0

/-- There are documents, none has a blank in its id, and the scroll id of the last page that is
asked for has come before. -/
structure Cleanable (c : Cluster) : Prop where
  nonempty : c.docs ≠ []
  unbroken : ∀ doc ∈ c.docs, ' ' ∉ doc.id
  repeated : ∃ i < c.docs.length / size + 1, c.scrollId i = c.scrollId (c.docs.length / size + 1)

end Claim

end AggregatedLogging.Elasticsearch
