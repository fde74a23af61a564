import AggregatedLogging.Throttle.Coverage
import AggregatedLogging.Throttle.SourceText

/-! The generated files over several runs in one directory. -/
namespace AggregatedLogging.Throttle

open Fluentd
open Python (Dict Key Order)

def marksSource (l : Text) : Prop :=
  "<source".toList <+: l.dropWhile isSeparator ∨ "</source".toList <+: l.dropWhile isSeparator

instance (l : Text) : Decidable (marksSource l) := by
  unfold marksSource
  infer_instance

def isNameChar (c : Char) : Bool := c.isAlphanum || c = '_'

/-- The sections that are open behind a line, the innermost one first.  A line that
ends another one than that fits nowhere. -/
def nest (opened : List Text) (l : Text) : Option (List Text) :=
  match l.dropWhile isSeparator with
  | '<' :: '/' :: s =>
    match opened with
    | name :: outer => if s.takeWhile isNameChar = name then some outer else none
    | [] => none
  | '<' :: s => some (s.takeWhile isNameChar :: opened)
  | _ => some opened

/-- One source, from the line that begins it to the one that ends it; each section
inside of it has its end there too. -/
def IsSourceBlock (s : Text) : Prop :=
  ∃ inner, Text.lines s = sourceOpen :: (inner ++ [sourceClose]) ∧
    (∀ l ∈ inner, ¬ marksSource l) ∧ inner.foldlM nest [] = some []

def IsFileOf (env : Env) (project : Text) (file : Key) : Prop :=
  ∃ day, file = Key.str (env.getFileName project day)

/-- The files are complete sources, one for each project with an accepted setting. -/
structure WellFormed (env : Env) (d : Document) (w : World) : Prop where
  block : ∀ e ∈ w.conf.entries, ∀ project, IsFileOf env project e.1 → IsSourceBlock (textOf e.2)
  once : ∀ project, Throttles d project →
    ∃! file, file ∈ w.conf.entries.map Prod.fst ∧ IsFileOf env project file
  none : ∀ project, ¬ Throttles d project →
    ∀ file ∈ w.conf.entries.map Prod.fst, ¬ IsFileOf env project file

/-- A run with the throttle file of its time.  The directory is an empty one when
the container is a new one. -/
structure RunStep where
  order : Order
  document : Document
  emptied : Bool

def World.before (s : RunStep) (w : World) : World :=
  if s.emptied then { w with conf := Dict.empty } else w

def runStep (env : Env) (clock : Nat → Day) (w : World) (s : RunStep) : Outcome :=
  run env clock s.order s.document (w.before s)

def runSteps (env : Env) (clock : Nat → Day) (w : World) (steps : List RunStep) : Outcome :=
  steps.foldlM (runStep env clock) w

/-- The file of a project gets its beginning and its end on one day, and what is
written to it takes one line each.  It is the `i`-th one of the run. -/
structure Closable (env : Env) (clock : Nat → Day) (w : World) (i : Nat)
    (p : Text × List Setting) : Prop where
  writable : Writable env w p.1
  name : OneLine p.1
  path : OneLine (seedPath env p.1)
  posFile : OneLine (seedPosFile env p.1)
  readFromHead : OneLine env.readFromHead
  values : ∀ s ∈ p.2, OneLine s.value
  sameDay : (clock (w.asked + 2 * i + 1)).digits = (clock (w.asked + 2 * i)).digits

structure Steady (env : Env) (clock : Nat → Day) (w : World) (d : Document) : Prop where
  empty : w.conf.entries = []
  closable : ∀ i p, (throttled d.parsed)[i]? = some p → Closable env clock w i p

def SteadySteps (env : Env) (clock : Nat → Day) : World → List RunStep → Prop
  | _, [] => True
  | w, s :: steps => Steady env clock (w.before s) s.document ∧
      ∀ w', runStep env clock w s = .ok w' → SteadySteps env clock w' steps

section Blocks

theorem IsField.head {l : Text} (h : IsField l) : (l.dropWhile isSeparator).head? ≠ some '<' := by
  obtain ⟨c, body, hsep, hc, -, rfl⟩ := h
  have hindent : ∀ d ∈ sourceIndent, isSeparator d = true := Text.forall_of_all (by decide)
  rw [List.dropWhile_append_of_pos hindent, List.dropWhile_cons_of_neg (by simp [hsep])]
  exact fun h => hc (Option.some.inj h)

theorem not_marks_of_head {l : Text} (h : (l.dropWhile isSeparator).head? ≠ some '<') :
    ¬ marksSource l := by
  have hfirst {w : Text} (hw : w.head? = some '<') (hbegins : w <+: l.dropWhile isSeparator) :
      False := by
    obtain ⟨s, hs⟩ := hbegins
    rw [← hs, List.head?_append, hw] at h
    exact h rfl
  rintro (hopen | hclose)
  · exact hfirst rfl hopen
  · exact hfirst rfl hclose

theorem nest_of_head {l : Text} (h : (l.dropWhile isSeparator).head? ≠ some '<')
    (opened : List Text) : nest opened l = some opened := by
  unfold nest
  split
  · rename_i hl
    exact absurd (congrArg List.head? hl) h
  · rename_i hl
    exact absurd (congrArg List.head? hl) h
  · rfl

theorem foldlM_nest_fields {ls : List Text} (h : ∀ l ∈ ls, IsField l) (opened : List Text) :
    ls.foldlM nest opened = some opened := by
  induction ls with
  | nil => rfl
  | cons l ls ih =>
    rw [List.foldlM_cons, nest_of_head (h l List.mem_cons_self).head]
    exact ih fun m hm => h m (List.mem_cons_of_mem l hm)

theorem parseLines_unmarked : ∀ l ∈ parseLines, ¬ marksSource l := by decide +kernel

theorem foldlM_nest_parseLines : parseLines.foldlM nest [] = some [] := by decide +kernel

theorem Written.block {project path posFile readFromHead : Text} {settings : List Setting}
    (h : Written project path posFile settings readFromHead) :
    IsSourceBlock (throttleLines project path posFile settings readFromHead).flatten := by
  refine ⟨sourceFields project path posFile settings readFromHead ++ parseLines, ?_, ?_, ?_⟩
  · rw [lines_throttle h, throttleLines_eq]
  · intro l hl
    rcases List.mem_append.mp hl with hl | hl
    · exact not_marks_of_head (h.isField l hl).head
    · exact parseLines_unmarked l hl
  · rw [List.foldlM_append, foldlM_nest_fields h.isField, Option.bind_eq_bind, Option.bind_some,
      foldlM_nest_parseLines]

theorem Closable.block {env : Env} {clock : Nat → Day} {w : World} {i : Nat}
    {p : Text × List Setting} (h : Closable env clock w i p)
    (hkeys : ∀ s ∈ p.2, s.key = readLinesLimit) :
    IsSourceBlock (textOf (throttledPieces env clock (w.asked + 2 * i) p)) := by
  have hwritten : Written p.1 (seedPath env p.1) (seedPosFile env p.1) p.2 env.readFromHead :=
    ⟨h.name, h.path, h.posFile, fun s hs => ⟨hkeys s hs, h.values s hs⟩, h.readFromHead⟩
  rw [textOf_pieces h.sameDay]
  exact hwritten.block

theorem IsSourceBlock.marks {s : Text} (h : IsSourceBlock s) :
    (Text.lines s).countP (fun l => marksSource l) = 2 := by
  obtain ⟨inner, hlines, hinner, -⟩ := h
  have hnone : inner.countP (fun l => marksSource l) = 0 := by
    rw [List.countP_eq_zero]
    simpa using hinner
  have hopen : marksSource sourceOpen := by decide
  have hclose : marksSource sourceClose := by decide
  rw [hlines, List.countP_cons, List.countP_append, hnone]
  simp [hopen, hclose]

end Blocks

section Runs

variable {env : Env} {clock : Nat → Day}

theorem mem_confOf {asked : Nat} {ps : List (Text × List Setting)} {e : Key × List Piece} :
    e ∈ confOf env clock asked ps ↔ ∃ i p, ps[i]? = some p ∧
      e = (Key.str (env.getFileName p.1 (clock (asked + 2 * i))),
        throttledPieces env clock (asked + 2 * i) p) := by
  induction ps generalizing asked with
  | nil => simp [confOf]
  | cons p ps ih =>
    rw [confOf, List.mem_cons, ih]
    constructor
    · rintro (rfl | ⟨i, q, hq, rfl⟩)
      · exact ⟨0, p, rfl, rfl⟩
      · refine ⟨i + 1, q, hq, ?_⟩
        rw [show asked + 2 * (i + 1) = asked + 2 + 2 * i by omega]
    · rintro ⟨i, q, hq, rfl⟩
      cases i with
      | zero =>
        obtain rfl := Option.some.inj hq
        exact .inl rfl
      | succ i =>
        refine .inr ⟨i, q, hq, ?_⟩
        rw [show asked + 2 * (i + 1) = asked + 2 + 2 * i by omega]

theorem isFileOf_file {n m : Text} {day : Day} :
    IsFileOf env n (Key.str (env.getFileName m day)) ↔ m = n := by
  constructor
  · rintro ⟨day', h⟩
    exact (getFileName_inj.mp (Key.str_inj.mp h)).1
  · rintro rfl
    exact ⟨day, rfl⟩

theorem Steady.wellFormed {w : World} {d : Document} (h : Steady env clock w d) (o : Order) :
    ∃ w', run env clock o d w = .ok w' ∧ WellFormed env d w' := by
  have hwritable : ∀ p ∈ throttled d.parsed, Writable env w p.1 := by
    intro p hp
    obtain ⟨i, hi⟩ := List.mem_iff_getElem?.mp hp
    exact (h.closable i p hi).writable
  have hfresh : ∀ p ∈ throttled d.parsed, Fresh env w p.1 := fun p _ => fresh_of_empty h.empty p.1
  have hconf : (ranWorld env clock o d w).conf.entries =
      confOf env clock w.asked (throttled d.parsed) := by
    refine (foldl_conf (throttled_nodup d.parsed) hfresh).trans ?_
    rw [h.empty, List.nil_append]
  have hfiles {file : Key} (hfile : file ∈ (ranWorld env clock o d w).conf.entries.map Prod.fst) :
      ∃ i p, (throttled d.parsed)[i]? = some p ∧
        file = Key.str (env.getFileName p.1 (clock (w.asked + 2 * i))) := by
    rw [hconf] at hfile
    obtain ⟨e, he, rfl⟩ := List.mem_map.mp hfile
    obtain ⟨i, p, hi, rfl⟩ := mem_confOf.mp he
    exact ⟨i, p, hi, rfl⟩
  refine ⟨_, run_eq hwritable hfresh, ?_, ?_, ?_⟩
  · intro e he project _
    rw [hconf] at he
    obtain ⟨i, p, hi, rfl⟩ := mem_confOf.mp he
    apply (h.closable i p hi).block
    intro s hs
    obtain ⟨settings, -, haccepted, -⟩ := mem_throttled.mp (List.mem_of_getElem? hi)
    rw [← haccepted] at hs
    exact (mem_acceptedOf.mp hs).1
  · intro project hproject
    obtain ⟨p, hp, rfl⟩ := List.mem_map.mp hproject
    obtain ⟨i, hi⟩ := List.mem_iff_getElem?.mp hp
    refine ⟨Key.str (env.getFileName p.1 (clock (w.asked + 2 * i))), ⟨?_, _, rfl⟩, ?_⟩
    · rw [hconf]
      exact List.mem_map_of_mem (mem_confOf.mpr ⟨i, p, hi, rfl⟩)
    · rintro file ⟨hfile, hof⟩
      obtain ⟨j, q, hj, rfl⟩ := hfiles hfile
      have hname : q.1 = p.1 := isFileOf_file.mp hof
      -- a project is named once, so both stand at one place
      have hlength : j < ((throttled d.parsed).map Prod.fst).length := by
        rw [List.length_map]
        exact (List.getElem?_eq_some_iff.mp hj).1
      have hplace : j = i := by
        apply (List.getElem?_inj hlength (throttled_nodup d.parsed)).mp
        rw [List.getElem?_map, List.getElem?_map, hi, hj, Option.map_some, Option.map_some, hname]
      rw [hplace, hname]
  · intro project hproject file hfile hof
    obtain ⟨i, p, hi, rfl⟩ := hfiles hfile
    rw [← isFileOf_file.mp hof] at hproject
    exact hproject (List.mem_map_of_mem (List.mem_of_getElem? hi))

/-- After every run of a sequence of steady ones the files are complete sources,
one for each project with an accepted setting in the throttle file of that run. -/
theorem runSteps_wellFormed {w : World} {steps : List RunStep}
    (h : SteadySteps env clock w steps) {past : List RunStep} {s : RunStep}
    (hpast : past ++ [s] <+: steps) :
    ∃ w', runSteps env clock w (past ++ [s]) = .ok w' ∧ WellFormed env s.document w' := by
  induction steps generalizing w past with
  | nil =>
    exact absurd (List.prefix_nil.mp hpast) (by simp)
  | cons t steps ih =>
    obtain ⟨w', hrun, hwell⟩ := h.1.wellFormed t.order
    cases past with
    | nil =>
      obtain rfl : s = t := (List.cons_prefix_cons.mp hpast).1
      refine ⟨w', ?_, hwell⟩
      rw [List.nil_append, runSteps, List.foldlM_cons, runStep, hrun]
      rfl
    | cons t' past =>
      obtain ⟨rfl, hlater⟩ := List.cons_prefix_cons.mp hpast
      obtain ⟨w'', hruns, hwell'⟩ := ih (h.2 w' hrun) hlater
      refine ⟨w'', ?_, hwell'⟩
      rw [List.cons_append, runSteps, List.foldlM_cons, runStep, hrun]
      exact hruns

end Runs

def limitStep (project : Text) (emptied : Bool) : RunStep :=
  ⟨.insertion, .pairs [limited project], emptied⟩

theorem steady_limited {project : Text} (hp : throttled (limitStep project false).document.parsed =
      [(project, [⟨readLinesLimit, "10".toList⟩])]) (hnamed : Named plainEnv project)
    (hfits : Fits plainEnv project) (hline : OneLine project ∧ OneLine (seedPath plainEnv project) ∧
      OneLine (seedPosFile plainEnv project)) {w : World} (hempty : w.conf.entries = []) :
    Steady plainEnv (fun _ => newYear) w (limitStep project false).document where
  empty := hempty
  closable := by
    intro i p hi
    have hmem := List.mem_of_getElem? hi
    rw [hp, List.mem_singleton] at hmem
    subst hmem
    refine ⟨⟨hnamed.seedable w, hfits⟩, hline.1, hline.2.1, hline.2.2, by decide, ?_, rfl⟩
    intro s hs
    rw [List.mem_singleton.mp hs]
    decide

/-- Two projects, one after the other, in containers of their own. -/
theorem runSteps_wellFormed_fresh : ∃ w', runSteps plainEnv (fun _ => newYear) freshWorld
    ([limitStep "web".toList false] ++ [limitStep "api".toList true]) = .ok w' ∧
      WellFormed plainEnv (limitStep "api".toList true).document w' := by
  have hsteady : SteadySteps plainEnv (fun _ => newYear) freshWorld
      ([limitStep "web".toList false] ++ [limitStep "api".toList true]) := by
    refine ⟨?_, fun w _ => ⟨?_, fun _ _ => trivial⟩⟩
    · exact steady_limited (by decide +kernel) ⟨by decide, by decide⟩ (by decide) (by decide) rfl
    · exact steady_limited (by decide +kernel) ⟨by decide, by decide⟩ (by decide) (by decide) rfl
  exact runSteps_wellFormed hsteady (List.prefix_refl _)

def Outcome.files : Outcome → List (Key × List Piece)
  | .ok w => w.conf.entries
  | .error _ => []

def piecesAgain : List Piece :=
  [.header "web".toList (seedPath plainEnv "web".toList) (seedPosFile plainEnv "web".toList),
    .setting ⟨readLinesLimit, "10".toList⟩, .footer "true".toList,
    .setting ⟨readLinesLimit, "10".toList⟩, .footer "true".toList]

theorem files_again : Outcome.files (runSteps plainEnv (fun _ => newYear) freshWorld
    [limitStep "web".toList false, limitStep "web".toList false]) =
      [(Key.str (plainEnv.getFileName "web".toList newYear), piecesAgain)] := by
  decide +kernel

theorem marks_again : (Text.lines (textOf piecesAgain)).countP (fun l => marksSource l) = 3 := by
  decide +kernel

/-- A second run on the same day writes behind the end of the source. -/
theorem not_wellFormed_again : ∃ w', runSteps plainEnv (fun _ => newYear) freshWorld
    [limitStep "web".toList false, limitStep "web".toList false] = .ok w' ∧
      ¬ WellFormed plainEnv (limitStep "web".toList false).document w' := by
  have hfiles := files_again
  cases hrun : runSteps plainEnv (fun _ => newYear) freshWorld
      [limitStep "web".toList false, limitStep "web".toList false] with
  | error e =>
    rw [hrun] at hfiles
    contradiction
  | ok w' =>
    refine ⟨w', rfl, fun hwell => ?_⟩
    rw [hrun] at hfiles
    change w'.conf.entries = _ at hfiles
    have hblock := hwell.block
    rw [hfiles, List.forall_mem_singleton] at hblock
    have hmarks := (hblock "web".toList ⟨newYear, rfl⟩).marks
    rw [marks_again] at hmarks
    contradiction

end AggregatedLogging.Throttle
