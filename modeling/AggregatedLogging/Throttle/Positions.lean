import AggregatedLogging.Throttle.Entry
import AggregatedLogging.Python.Value

/-! Position files, and the transfer of a project's entries from one to another. -/
namespace AggregatedLogging.Throttle

open Regex Fluentd
open Python (Dict Key)

abbrev Files := Dict Text

def Files.text (fs : Files) (path : Text) : Option Text := fs.get? (Key.str path)

def Files.write (fs : Files) (path text : Text) : Files := fs.insert (Key.str path) text

theorem Files.text_write (fs : Files) (path other text : Text) :
    (fs.write path text).text other = if other = path then some text else fs.text other := by
  rw [Files.text, Files.write, Dict.get?_insert]
  simp only [Key.str_inj]
  rfl

def Files.content (fs : Files) (path : Text) : Text := (fs.text path).getD []

/-- The characters at which `split(" ")` cuts. -/
def isSeparator (c : Char) : Bool :=
  c = ' ' || c = '\t' || c = '\n' || c = '\r' || c = Char.ofNat 11 || c = Char.ofNat 12

def splitFrom (word : Text) : Text → List Text
  | [] => if word = [] then [] else [word]
  | c :: s =>
    if isSeparator c then (if word = [] then splitFrom [] s else word :: splitFrom [] s)
    else splitFrom (word ++ [c]) s

def split (s : Text) : List Text := splitFrom [] s

/-- Every matching line holds the suffix of a log file, so it has a field. -/
def firstField (line : Text) : Text := (split line).headD []

def grep (r : Pattern) (s : Text) : List Text := (Text.lines s).filter fun l => r.found l

/-- Clear out what stands from the path to the end of the line. -/
def clearEntry (path update : Text) : Text :=
  ((compile .ruby (linePattern path)).map fun r => r.delete update).getD update

/-- The pattern of the project finds no line of another project.  A dot in the name
would stand for any character. -/
def FindsOwn (project s : Text) : Prop := '.' ∉ project ∨ grep (projectRegex project) s = []

/-- The text of the destination: each entry is cleared out and then appended. -/
def updated (found : List Text) (dest : Text) : Text :=
  found.foldl (fun update m => clearEntry (firstField m) update ++ m) dest

def remaining (found : List Text) (source : Text) : Text :=
  found.foldl (fun update m => clearEntry (firstField m) update) source

/-- Move the entries of a project.  The pattern of a project that is no regular
expression raises an error. -/
def movePosFileProjectEntry (fs : Files) (sourceFile destFile project : Text) : Option Files :=
  match fs.text sourceFile with
  | none => some fs
  | some source =>
    (compile .ruby (projectPattern project)).map fun r =>
      let found := grep r source
      let moved := fs.write destFile (updated found (fs.content destFile))
      moved.write sourceFile (remaining found (moved.content sourceFile))

def render (es : List Entry) : Text := (es.map Entry.line).flatten

/-- Of the entries for one path the last one stays, in its place. -/
def lastEntries : List Entry → List Entry
  | [] => []
  | e :: es => if e.path ∈ es.map Entry.path then lastEntries es else e :: lastEntries es

def without (moved es : List Entry) : List Entry :=
  es.filter fun e => e.path ∉ moved.map Entry.path

def ofProject (project : Text) (es : List Entry) : List Entry := es.filter fun e => e.ns = project

def others (project : Text) (es : List Entry) : List Entry := es.filter fun e => e.ns ≠ project

/-- The destination behind the transfer of `moved`. -/
def received (moved dest : List Entry) : List Entry := without moved dest ++ lastEntries moved

theorem splitFrom_field {w : Text} (hw : w.all (fun c => !isSeparator c) = true) {word : Text}
    {c : Char} (hc : isSeparator c = true) (hne : word ++ w ≠ []) (s : Text) :
    splitFrom word (w ++ c :: s) = (word ++ w) :: splitFrom [] s := by
  induction w generalizing word with
  | nil =>
    rw [List.append_nil] at hne ⊢
    rw [List.nil_append, splitFrom, if_pos hc, if_neg hne]
  | cons d w ih =>
    rw [List.all_cons, Bool.and_eq_true, Bool.not_eq_true'] at hw
    have hword : word ++ d :: w = (word ++ [d]) ++ w := by simp
    rw [List.cons_append, splitFrom, if_neg (by simp [hw.1]), hword]
    exact ih hw.2 (hword ▸ hne)

theorem firstField_line (e : Entry) : firstField e.line = e.path := by
  have hblank : e.path.all (fun c => !isSeparator c) = true := by
    rw [List.all_eq_true]
    intro c hc
    rw [Bool.not_eq_true', ← Bool.not_eq_true]
    intro hsep
    have hchar (x : Char) (hx : isPodChar x = false) (hbar : x ≠ '_') (hlog : x ∉ logSuffix)
        (hdir : x ∉ containersDir) : c ≠ x := by
      rintro rfl
      exact e.file.not_mem_path hx hbar hlog hdir hc
    simp only [isSeparator, Bool.or_eq_true, decide_eq_true_eq] at hsep
    rcases hsep with ((((h | h) | h) | h) | h) | h
    all_goals exact absurd h (hchar _ (by decide) (by decide) (by decide) (by decide))
  have hne : [] ++ e.path ≠ [] := List.cons_ne_nil _ _
  rw [firstField, split, Entry.line, splitFrom_field hblank (by decide) hne]
  rfl

theorem clearEntry_eq (path update : Text) :
    clearEntry path update = (lineRegex path).delete update := by
  rw [clearEntry, compile_linePattern]
  rfl

theorem clearEntry_render (f : LogFile) (es : List Entry) :
    clearEntry f.path (render es) = render (es.filter fun e => e.path ≠ f.path) := by
  have hne : f.path ≠ [] := List.cons_ne_nil _ _
  have hbreak : '\n' ∉ f.path := f.not_mem_path (by decide) (by decide) (by decide) (by decide)
  rw [clearEntry_eq, render, delete_lines hne hbreak (Entry.leadsOnly f es), List.filter_map, render]
  congr 3
  funext e
  simp [Entry.path_begins_line]

theorem lines_render (es : List Entry) : Text.lines (render es) = es.map Entry.line := by
  apply Text.lines_flatten
  intro l hl
  obtain ⟨e, -, rfl⟩ := List.mem_map.mp hl
  exact e.line_isLine

theorem grep_render {project : Text} (hp : '.' ∉ project) (es : List Entry) :
    grep (projectRegex project) (render es) = (ofProject project es).map Entry.line := by
  rw [grep, lines_render, List.filter_map, ofProject]
  congr 2
  funext e
  rw [Function.comp_apply, Bool.eq_iff_iff, Entry.line_found hp, decide_eq_true_eq]

theorem ofProject_of_dot {project : Text} (hdot : '.' ∈ project) (es : List Entry) :
    ofProject project es = [] := by
  rw [ofProject, List.filter_eq_nil_iff]
  intro e _
  rw [decide_eq_true_eq]
  rintro rfl
  exact not_mem_label e.file.ns_valid (by decide) hdot

theorem FindsOwn.grep_eq {project : Text} {es : List Entry} (h : FindsOwn project (render es)) :
    grep (projectRegex project) (render es) = (ofProject project es).map Entry.line := by
  by_cases hdot : '.' ∈ project
  · rw [h.resolve_left (not_not_intro hdot), ofProject_of_dot hdot, List.map_nil]
  · exact grep_render hdot es

theorem FindsOwn.of_lines {project s t : Text} (h : FindsOwn project s)
    (hlines : ∀ l ∈ Text.lines t, l ∈ Text.lines s) : FindsOwn project t := by
  refine h.imp id fun hnone => ?_
  rw [grep] at hnone ⊢
  rw [List.filter_eq_nil_iff] at hnone ⊢
  intro l hl
  exact hnone l (hlines l hl)

theorem render_append (es fs : List Entry) : render (es ++ fs) = render es ++ render fs := by
  simp [render]

theorem without_cons (m : Entry) (moved es : List Entry) :
    without moved (es.filter fun e => e.path ≠ m.path) = without (m :: moved) es := by
  rw [without, List.filter_filter, without]
  apply List.filter_congr
  intro e _
  rw [Bool.eq_iff_iff, Bool.and_eq_true, decide_eq_true_eq, decide_eq_true_eq, decide_eq_true_eq,
    List.map_cons, List.mem_cons, not_or, and_comm]

theorem without_append (moved es fs : List Entry) :
    without moved (es ++ fs) = without moved es ++ without moved fs := List.filter_append es fs

theorem foldl_received (moved dest : List Entry) :
    moved.foldl (fun d m => d.filter (fun e => e.path ≠ m.path) ++ [m]) dest =
      received moved dest := by
  induction moved generalizing dest with
  | nil => simp [received, without, lastEntries]
  | cons m moved ih =>
    rw [List.foldl_cons, ih, received, received, without_append, without_cons, List.append_assoc,
      lastEntries]
    congr 1
    by_cases hm : m.path ∈ moved.map Entry.path
    · rw [without, List.filter_cons_of_neg (by simpa using hm), if_pos hm]
      rfl
    · rw [without, List.filter_cons_of_pos (by simpa using hm), if_neg hm]
      rfl

theorem updated_render (moved dest : List Entry) :
    updated (moved.map Entry.line) (render dest) = render (received moved dest) := by
  rw [← foldl_received, updated]
  induction moved generalizing dest with
  | nil => rfl
  | cons m moved ih =>
    have hone : clearEntry (firstField m.line) (render dest) ++ m.line =
        render (dest.filter (fun e => e.path ≠ m.path) ++ [m]) := by
      rw [firstField_line, Entry.path, clearEntry_render, render_append]
      simp [render, Entry.path]
    rw [List.map_cons, List.foldl_cons, List.foldl_cons, hone]
    exact ih _

theorem foldl_without (moved source : List Entry) :
    moved.foldl (fun d m => d.filter (fun e => e.path ≠ m.path)) source = without moved source := by
  induction moved generalizing source with
  | nil => simp [without]
  | cons m moved ih =>
    rw [List.foldl_cons, ih, without_cons]

theorem remaining_render (moved source : List Entry) :
    remaining (moved.map Entry.line) (render source) = render (without moved source) := by
  rw [← foldl_without, remaining]
  induction moved generalizing source with
  | nil => rfl
  | cons m moved ih =>
    have hone : clearEntry (firstField m.line) (render source) =
        render (source.filter fun e => e.path ≠ m.path) := by
      rw [firstField_line]
      exact clearEntry_render m.file source
    rw [List.map_cons, List.foldl_cons, List.foldl_cons, hone]
    exact ih _

theorem without_ofProject (project : Text) (es : List Entry) :
    without (ofProject project es) es = others project es := by
  apply List.filter_congr
  intro e he
  rw [decide_eq_decide, not_iff_not, List.mem_map]
  constructor
  · rintro ⟨m, hm, hpath⟩
    have hns : m.ns = project := of_decide_eq_true (List.mem_filter.mp hm).2
    rw [← hns]
    exact (LogFile.ns_of_path hpath).symm
  · intro hns
    exact ⟨e, List.mem_filter.mpr ⟨he, decide_eq_true hns⟩, rfl⟩

theorem move_entries {fs : Files} {sourceFile destFile project : Text} (hne : sourceFile ≠ destFile)
    (hp : isPlain project = true) {source dest : List Entry}
    (hown : FindsOwn project (render source))
    (hsource : fs.text sourceFile = some (render source))
    (hdest : fs.content destFile = render dest) :
    movePosFileProjectEntry fs sourceFile destFile project =
      some ((fs.write destFile (render (received (ofProject project source) dest))).write sourceFile
        (render (others project source))) := by
  have hcontent (text : Text) : (fs.write destFile text).content sourceFile = render source := by
    rw [Files.content, Files.text_write, if_neg hne, hsource, Option.getD_some]
  simp only [movePosFileProjectEntry, hsource, compile_projectPattern hp, Option.map_some,
    hown.grep_eq, hdest, updated_render, hcontent, remaining_render, without_ofProject]

end AggregatedLogging.Throttle
