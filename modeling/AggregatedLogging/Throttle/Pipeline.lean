import AggregatedLogging.Throttle.SourceText
import AggregatedLogging.Ruby.Json

/-! What becomes of the lines of a log file behind the source that tails it. -/
namespace AggregatedLogging.Throttle

open Regex Ruby

inductive Format where
  | json
  | regexp (expression : Text)
  deriving DecidableEq, Repr

structure ParsePattern where
  format : Format
  timeFormat : Text
  keepTimeKey : Bool
  deriving DecidableEq, Repr

/-- The lines that the plugin for CRI-O and docker logs understands. -/
def crioExpression : Text :=
  "^(?<time>.+) (?<stream>stdout|stderr)( (?<logtag>.))? (?<log>.*)$".toList

def parsePatterns : List ParsePattern :=
  [⟨.json, "%Y-%m-%dT%H:%M:%S.%N%Z".toList, true⟩,
    ⟨.regexp crioExpression, "%Y-%m-%dT%H:%M:%S.%N%:z".toList, true⟩]

def concatLines : List Text :=
  ["<label @CONCAT>\n".toList, "  <filter kubernetes.**>\n".toList, "    @type concat\n".toList,
    "    key log\n".toList, "    partial_key logtag\n".toList, "    partial_value P\n".toList,
    "    separator ''\n".toList, "  </filter>\n".toList, "  <match kubernetes.**>\n".toList,
    "    @type relabel\n".toList, "    @label @INGRESS\n".toList, "  </match>\n".toList,
    "</label>\n".toList]

/-- The default source; `printed` is how the excluded patterns are printed. -/
def DefaultInput.lines (printed : List Text → Text) (i : DefaultInput) : List Text :=
  [sourceOpen, "  @type tail\n".toList, "  @id container-input\n".toList,
      "  path \"".toList ++ i.path ++ "\"\n".toList,
      "  pos_file \"".toList ++ i.posFile ++ "\"\n".toList, "  tag kubernetes.*\n".toList,
      "  read_from_head \"".toList ++ i.readFromHead ++ "\"\n".toList,
      "  exclude_path ".toList ++ printed i.excludePath ++ "\n".toList,
      "  @label @CONCAT\n".toList] ++ parseLines ++ [sourceClose]

/-- The value of a parameter in a line; sections inside of others are indented. -/
def paramIn (indent name : Text) (l : Text) : Option Text :=
  let before := indent ++ name ++ [' ']
  if before.isPrefixOf l then some (l.drop before.length).dropLast else none

/-- The value that counts is the last one. -/
def param (indent name : Text) (lines : List Text) : Option Text :=
  (lines.filterMap (paramIn indent name)).getLast?

structure ConcatLabel where
  name : Text
  key : Text
  partialKey : Text
  partialValue : Text
  separator : Text
  next : Text
  deriving DecidableEq, Repr

def filterIndent : Text := "    ".toList

def concatLabel (lines : List Text) : ConcatLabel where
  name := ((param [] "<label".toList lines).getD []).dropLast
  key := (param filterIndent "key".toList lines).getD []
  partialKey := (param filterIndent "partial_key".toList lines).getD []
  partialValue := (param filterIndent "partial_value".toList lines).getD []
  separator := (((param filterIndent "separator".toList lines).getD []).drop 1).dropLast
  next := (param filterIndent "@label".toList lines).getD []

/-- What the plugins of other packages do: the JSON parser, the check of a time in
a format, and how a filter makes one record of partial ones and the one behind
them.  A record without partial ones before it stays as it is. -/
structure Plugins where
  json : Text → Option Fields
  readsTime : Text → Option Json → Bool
  join : ConcatLabel → List Fields → Fields → Fields
  join_nil : ∀ c r, join c [] r = r

def timeKey : Text := "time".toList

section Records

variable (lib : Plugins)

/-- The named groups of a match are the fields. -/
def namedFields (r : Pattern) (m : Match) : Fields :=
  r.names.filterMap fun n => (m.group n.2).map fun t => (n.1, Json.str t)

def Format.record : Format → Text → Option Fields
  | .json, line => lib.json line
  | .regexp e, line =>
    (compile .ruby e).bind fun r => (r.search line).map fun m => namedFields r m

def ParsePattern.record (p : ParsePattern) (line : Text) : Option Fields :=
  ((p.format.record lib line).filter fun r => lib.readsTime p.timeFormat (r.lookup timeKey)).map
    fun r => if p.keepTimeKey then r else r.filter fun f => f.1 ≠ timeKey

/-- The record of a line: the first pattern that gives one.  A line without a record
is left out. -/
def recordOf (line : Text) : Option Fields := parsePatterns.findSome? fun p => p.record lib line

def recordsOf (content : List Text) : List Fields := content.filterMap (recordOf lib)

/-- The filter keeps a record until one comes that is not marked. -/
def ConcatLabel.holds (c : ConcatLabel) (r : Fields) : Bool :=
  (r.lookup c.key).isSome && (r.lookup c.partialKey).any fun v => v.isText c.partialValue

/-- The records behind the filter; `held` are those it has kept. -/
def ConcatLabel.run (c : ConcatLabel) (held : List Fields) : List Fields → List Fields
  | [] => []
  | r :: rs =>
    if (r.lookup c.key).isNone then r :: c.run held rs
    else if c.holds r then c.run (held ++ [r]) rs
    else lib.join c held r :: c.run [] rs

def ingress : Text := "@INGRESS".toList

/-- The records of a file that reach `@INGRESS` from a label. -/
def reaching (c : ConcatLabel) (label : Text) (content : List Text) : List Fields :=
  if label = ingress then recordsOf lib content
  else if label = c.name ∧ c.next = ingress then c.run lib [] (recordsOf lib content)
  else []

def reachingFrom (c : ConcatLabel) (source : Text) (content : List Text) : List Fields :=
  reaching lib c ((param sourceIndent "@label".toList (Text.lines source)).getD []) content

/-- What the generator writes into the default file about partial records. -/
def defaultConcat : ConcatLabel where
  name := "@CONCAT".toList
  key := "log".toList
  partialKey := "logtag".toList
  partialValue := "P".toList
  separator := []
  next := ingress

/-- What is written for the default source takes one line each. -/
structure DefaultInput.Written (printed : List Text → Text) (i : DefaultInput) : Prop where
  path : OneLine i.path
  posFile : OneLine i.posFile
  readFromHead : OneLine i.readFromHead
  excludePath : OneLine (printed i.excludePath)

theorem parseLines_label : parseLines.filterMap (paramIn sourceIndent "@label".toList) = [] := by
  decide +kernel

theorem param_throttle {project path posFile readFromHead : Text} {settings : List Setting}
    (h : Written project path posFile settings readFromHead) :
    param sourceIndent "@label".toList
      (Text.lines (throttleLines project path posFile settings readFromHead).flatten) =
        some ingress := by
  have hsettings : (settings.map Setting.text).filterMap (paramIn sourceIndent "@label".toList) =
      [] := by
    rw [List.filterMap_map, List.filterMap_eq_nil_iff]
    intro s hs
    rw [Function.comp_apply, Setting.text, settingText, (h.settings s hs).1]
    rfl
  rw [lines_throttle h, throttleLines_eq, param, sourceFields, List.filterMap_cons]
  simp only [List.filterMap_append, hsettings, parseLines_label]
  rfl

theorem DefaultInput.Written.lines {printed : List Text → Text} {i : DefaultInput}
    (h : i.Written printed) : Text.lines (i.lines printed).flatten = i.lines printed := by
  have hfield (w x : Text) (r : Text) (hw : '\n' ∉ w) (hx : OneLine x) (hr : '\n' ∉ r) :
      Text.isLine (w ++ x ++ (r ++ ['\n'])) := by
    refine ⟨w ++ x ++ r, ?_, by simp⟩
    rw [List.mem_append, List.mem_append, not_or, not_or]
    exact ⟨⟨hw, hx.1⟩, hr⟩
  have hfixed (w : Text) (hw : '\n' ∉ w) : Text.isLine (w ++ ['\n']) := ⟨w, hw, rfl⟩
  apply Text.lines_flatten
  intro l hl
  rw [DefaultInput.lines, List.mem_append, List.mem_append, List.mem_singleton] at hl
  rcases hl with (hl | hl) | rfl
  · simp only [List.mem_cons, List.not_mem_nil, or_false] at hl
    rcases hl with rfl | rfl | rfl | rfl | rfl | rfl | rfl | rfl | rfl
    · exact hfixed "<source>".toList (by decide)
    · exact hfixed "  @type tail".toList (by decide)
    · exact hfixed "  @id container-input".toList (by decide)
    · exact hfield _ _ ['"'] (by decide) h.path (by decide)
    · exact hfield _ _ ['"'] (by decide) h.posFile (by decide)
    · exact hfixed "  tag kubernetes.*".toList (by decide)
    · exact hfield _ _ ['"'] (by decide) h.readFromHead (by decide)
    · exact hfield _ _ [] (by decide) h.excludePath (by decide)
    · exact hfixed "  @label @CONCAT".toList (by decide)
  · exact parseLines_isLine l hl
  · exact hfixed "</source>".toList (by decide)

theorem param_default {printed : List Text → Text} {i : DefaultInput} (h : i.Written printed) :
    param sourceIndent "@label".toList (Text.lines (i.lines printed).flatten) =
      some defaultConcat.name := by
  rw [h.lines, DefaultInput.lines, param]
  simp only [List.filterMap_append, parseLines_label]
  rfl

theorem concatLabel_default : concatLabel concatLines = defaultConcat := by decide +kernel

variable {lib} {c : ConcatLabel}

theorem length_run (held rs : List Fields) :
    (c.run lib held rs).length + rs.countP c.holds = rs.length := by
  induction rs generalizing held with
  | nil => rfl
  | cons r rs ih =>
    rw [ConcatLabel.run, List.countP_cons]
    by_cases hkey : (r.lookup c.key).isNone = true
    · have hholds : c.holds r = false := by
        rw [ConcatLabel.holds, Option.isNone_iff_eq_none.mp hkey]
        rfl
      have := ih held
      rw [if_pos hkey, hholds]
      simp only [List.length_cons, Bool.false_eq_true, if_false]
      omega
    · rw [if_neg hkey]
      by_cases hholds : c.holds r = true
      · have := ih (held ++ [r])
        simp only [hholds, if_true, List.length_cons]
        omega
      · have := ih []
        simp only [hholds, Bool.false_eq_true, if_false, List.length_cons]
        omega

theorem run_of_none {rs : List Fields} (h : ∀ r ∈ rs, c.holds r = false) :
    c.run lib [] rs = rs := by
  induction rs with
  | nil => rfl
  | cons r rs ih =>
    have hrest := ih fun q hq => h q (List.mem_cons_of_mem r hq)
    rw [ConcatLabel.run, h r List.mem_cons_self, hrest, lib.join_nil]
    simp

theorem run_eq_self_iff {rs : List Fields} : c.run lib [] rs = rs ↔ ∀ r ∈ rs, c.holds r = false := by
  constructor
  · intro hrun
    have hlength := @length_run lib c [] rs
    rw [hrun] at hlength
    have hcount : rs.countP c.holds = 0 := by omega
    intro r hr
    exact Bool.eq_false_iff.mpr (List.countP_eq_zero.mp hcount r hr)
  · exact run_of_none

end Records

/-- A throttled project and one that is not throttled give the same records exactly
when no line of the file is a partial one. -/
theorem sameRecords_iff (lib : Plugins) {project path posFile readFromHead : Text}
    {settings : List Setting} (h : Written project path posFile settings readFromHead)
    {printed : List Text → Text} {i : DefaultInput} (hi : i.Written printed) (content : List Text) :
    reachingFrom lib (concatLabel concatLines)
        (throttleLines project path posFile settings readFromHead).flatten content =
      reachingFrom lib (concatLabel concatLines) (i.lines printed).flatten content ↔
    ∀ line ∈ content, ∀ r, recordOf lib line = some r → defaultConcat.holds r = false := by
  have hother : defaultConcat.name ≠ ingress := by decide
  have hthrottled : reachingFrom lib defaultConcat
      (throttleLines project path posFile settings readFromHead).flatten content =
        recordsOf lib content := by
    rw [reachingFrom, param_throttle h, Option.getD_some, reaching, if_pos rfl]
  have hdefault : reachingFrom lib defaultConcat (i.lines printed).flatten content =
      defaultConcat.run lib [] (recordsOf lib content) := by
    rw [reachingFrom, param_default hi, Option.getD_some, reaching, if_neg hother,
      if_pos ⟨rfl, rfl⟩]
  rw [concatLabel_default, hthrottled, hdefault, eq_comm, run_eq_self_iff]
  constructor
  · intro h line hline r hr
    exact h r (List.mem_filterMap.mpr ⟨line, hline, hr⟩)
  · intro h r hr
    obtain ⟨line, hline, hrecord⟩ := List.mem_filterMap.mp hr
    exact h line hline r hrecord

def joinField (c : ConcatLabel) (held : List Fields) (r : Fields) : Fields :=
  if held = [] then r else
    r.map fun f => if f.1 = c.key then
      (f.1, .str (Text.join c.separator ((held ++ [r]).filterMap fun q =>
        (q.lookup c.key).bind fun v => match v with
          | .str s => some s
          | _ => none)))
      else f

def crioPlugins : Plugins where
  json := fun _ => none
  readsTime := fun _ _ => true
  join := joinField
  join_nil := fun _ _ => if_pos rfl

def cutMessage : List Text :=
  ["2020-01-01T00:00:00.0+00:00 stdout P hel".toList,
    "2020-01-01T00:00:00.1+00:00 stdout F lo".toList]

def webSource : Text :=
  (throttleLines "web".toList "/var/log/containers/*_web_*.log".toList
    "/var/log/es-container-web.log.pos".toList [⟨readLinesLimit, "10".toList⟩] "true".toList).flatten

def containerInput : DefaultInput :=
  ⟨"/var/log/containers/*.log".toList, "/var/log/es-containers.log.pos".toList, "true".toList, []⟩

def containerSource : Text := (containerInput.lines fun _ => "[]".toList).flatten

theorem sameRecords_iff_cut :
    reachingFrom crioPlugins (concatLabel concatLines) webSource cutMessage =
      reachingFrom crioPlugins (concatLabel concatLines) containerSource cutMessage ↔
    ∀ line ∈ cutMessage, ∀ r, recordOf crioPlugins line = some r →
      defaultConcat.holds r = false :=
  sameRecords_iff crioPlugins ⟨by decide, by decide, by decide, by decide, by decide⟩
    ⟨by decide, by decide, by decide, by decide⟩ cutMessage

/-- Behind the throttle source the message stays cut. -/
theorem not_sameRecords_cut :
    reachingFrom crioPlugins (concatLabel concatLines) webSource cutMessage ≠
      reachingFrom crioPlugins (concatLabel concatLines) containerSource cutMessage := by
  intro h
  have hlength := congrArg List.length h
  have hthrottled :
      (reachingFrom crioPlugins (concatLabel concatLines) webSource cutMessage).length = 2 := by
    decide +kernel
  have hdefault :
      (reachingFrom crioPlugins (concatLabel concatLines) containerSource cutMessage).length =
        1 := by
    decide +kernel
  omega

end AggregatedLogging.Throttle
