import AggregatedLogging.Throttle.Runs

/-! Which of the generated sources tails a log file. -/
namespace AggregatedLogging.Throttle

open Glob Fluentd
open Python (Dict Key Order)

/-- The globs of a path are separated by commas. -/
def splitPathsFrom (glob : Text) : Text → List Text
  | [] => if glob = [] then [] else [glob]
  | c :: s =>
    if c = ',' then glob :: splitPathsFrom [] s else splitPathsFrom (glob ++ [c]) s

def splitPaths (s : Text) : List Text := splitPathsFrom [] s

structure Source where
  paths : List Text
  excludePath : List Text
  posFile : Text
  deriving DecidableEq, Repr

/-- It tails what matches a glob of `path` and none of `exclude_path`. -/
def Source.tails (s : Source) (path : Text) : Bool :=
  s.paths.any (fun g => matchesPath g path) && !s.excludePath.any fun g => matchesPath g path

def Piece.source? : Piece → Option Source
  | .header _ path posFile => some ⟨splitPaths path, [], posFile⟩
  | .setting _ | .footer _ => none

def DefaultInput.source (i : DefaultInput) : Source := ⟨splitPaths i.path, i.excludePath, i.posFile⟩

def World.sources (w : World) : List Source :=
  (w.conf.entries.flatMap fun e => e.2.filterMap Piece.source?) ++
    w.defaultInput.toList.map DefaultInput.source

def World.tailers (w : World) (path : Text) : List Source := w.sources.filter fun s => s.tails path

def throttleSource (env : Env) (project : Text) : Source :=
  ⟨splitPaths (seedPath env project), [], seedPosFile env project⟩

structure Deployed (env : Env) : Prop where
  dir : env.contLogDir = "/var/log/containers".toList
  logs : env.contLogsPath = env.contLogDir ++ "/*.log".toList

/-- Nothing in the names, the words and the values means anything but itself, and
the names can be those of files. -/
structure Tame (env : Env) (d : Document) : Prop where
  names : ∀ p ∈ throttled d.parsed, isPlain p.1 = true
  words : ∀ p ∈ env.defaultOpsProjects, isPlain p = true
  values : ∀ s ∈ (throttled d.parsed).flatMap Prod.snd, '\n' ∉ s.value
  fits : ∀ p ∈ throttled d.parsed, Fits env p.1

def covers (env : Env) (project ns : Text) : Prop :=
  if project = operations then ns ∈ env.defaultOpsProjects else ns = project

instance (env : Env) (project ns : Text) : Decidable (covers env project ns) := by
  unfold covers
  infer_instance

theorem splitPathsFrom_comma {w : Text} (hw : ',' ∉ w) (glob s : Text) :
    splitPathsFrom glob (w ++ ',' :: s) = (glob ++ w) :: splitPathsFrom [] s := by
  induction w generalizing glob with
  | nil => simp [splitPathsFrom]
  | cons c w ih =>
    rw [List.mem_cons, not_or] at hw
    rw [List.cons_append, splitPathsFrom, if_neg (Ne.symm hw.1), ih hw.2]
    simp

theorem splitPathsFrom_last {w : Text} (hw : ',' ∉ w) {glob : Text} (hne : glob ++ w ≠ []) :
    splitPathsFrom glob w = [glob ++ w] := by
  induction w generalizing glob with
  | nil =>
    rw [List.append_nil] at hne ⊢
    rw [splitPathsFrom, if_neg hne]
  | cons c w ih =>
    rw [List.mem_cons, not_or] at hw
    have hglob : glob ++ c :: w = (glob ++ [c]) ++ w := by simp
    rw [splitPathsFrom, if_neg (Ne.symm hw.1), ih hw.2 (hglob ▸ hne), hglob]

theorem splitPaths_join {globs : List Text} (h : ∀ g ∈ globs, g ≠ [] ∧ ',' ∉ g) :
    splitPaths (Text.join [','] globs) = globs := by
  induction globs with
  | nil => rfl
  | cons g globs ih =>
    obtain ⟨hne, hcomma⟩ := h g List.mem_cons_self
    have hrest := ih fun g hg => h g (List.mem_cons_of_mem _ hg)
    cases globs with
    | nil => exact splitPathsFrom_last hcomma hne
    | cons g' globs =>
      change splitPaths (g ++ [','] ++ Text.join [','] (g' :: globs)) = _
      rw [List.append_assoc, splitPaths, List.singleton_append, splitPathsFrom_comma hcomma,
        ← splitPaths, hrest]
      rfl

theorem map_globItem {w : Text} (hw : '*' ∉ w) : w.map globItem = lits w := by
  apply List.map_congr_left
  intro c hc
  have hstar : c ≠ '*' := by
    rintro rfl
    exact hw hc
  rw [globItem, if_neg hstar]

theorem not_mem_plain {p : Text} (hp : isPlain p = true) {c : Char} (hc : isPlainChar c = false) :
    c ∉ p := not_mem_of_all hp hc

section Matching

variable {env : Env} (hdir : env.contLogDir = "/var/log/containers".toList)

include hdir

theorem matchesPath_project {project : Text} (hp : '*' ∉ project) (f : LogFile) :
    matchesPath (env.getProjectPattern project) f.path = true ↔ f.ns = project := by
  have hitems : (env.getProjectPattern project).map globItem =
      lits containersDir ++ (Item.many '/' :: .lit '_' :: (lits (project ++ ['_']) ++
        (Item.many '/' :: lits logSuffix))) := by
    rw [Env.getProjectPattern, hdir]
    simp only [List.map_append, map_globItem hp, lits, List.append_assoc]
    rfl
  have hfree : (Item.lit '_' :: (lits (project ++ ['_']) ++ (Item.many '/' :: lits logSuffix))).all
      Item.free = true := by
    rw [List.all_cons, List.all_append, lits_free, List.all_cons, lits_free]
    rfl
  obtain ⟨hpod, hns, hid⟩ := f.not_mem_parts (x := '_') (by decide)
  have hback : '_' ∉ f.containerId ++ logSuffix := by
    rw [List.mem_append, not_or]
    exact ⟨hid, by decide⟩
  have hslash : '/' ∉ f.pod ∧ '/' ∉ f.containerId := by
    obtain ⟨hpod, -, hid⟩ := f.not_mem_parts (x := '/') (by decide)
    exact ⟨hpod, hid⟩
  rw [matchesPath, hitems, exactly, accepts_lits_append]
  constructor
  · rintro ⟨r, hr, haccepts⟩
    obtain ⟨u, r', hsplit, -, haccepts⟩ := (accepts_many (b := true) hfree).mp haccepts
    obtain ⟨r'', rfl, haccepts⟩ := accepts_lit.mp haccepts
    obtain ⟨v, rfl, -⟩ := accepts_lits_append.mp haccepts
    have hname : f.name = u ++ '_' :: (project ++ '_' :: v) := by
      rw [hsplit] at hr
      have := List.append_cancel_left hr
      rw [this]
      simp
    exact (enclosed_two (P := fun n => n = project) hpod hns hback).mp ⟨u, project, v, hname, rfl⟩
  · rintro rfl
    refine ⟨f.name, rfl, (accepts_many (b := true) hfree).mpr ⟨f.pod, _, rfl, hslash.1, ?_⟩⟩
    refine accepts_lit.mpr ⟨_, rfl, accepts_lits_append.mpr ⟨f.containerId ++ logSuffix, ?_, ?_⟩⟩
    · simp
    · refine (accepts_many (b := true) (lits_free _)).mpr ⟨f.containerId, logSuffix, rfl, hslash.2, ?_⟩
      exact accepts_lits.mpr ⟨[], (List.append_nil _).symm, rfl⟩

theorem matchesPath_all (f : LogFile) :
    matchesPath (env.contLogDir ++ "/*.log".toList) f.path = true := by
  have hitems : (env.contLogDir ++ "/*.log".toList).map globItem =
      lits containersDir ++ (Item.many '/' :: lits logSuffix) := by
    rw [hdir]
    rfl
  have hfront : '/' ∉ f.pod ++ '_' :: (f.ns ++ '_' :: f.containerId) := by
    obtain ⟨hpod, hns, hid⟩ := f.not_mem_parts (x := '/') (by decide)
    exact Text.not_mem_split (by decide) hpod (Text.not_mem_split (by decide) hns hid)
  have hname : f.name = (f.pod ++ '_' :: (f.ns ++ '_' :: f.containerId)) ++ logSuffix := by
    simp [LogFile.name]
  rw [matchesPath, hitems, exactly, accepts_lits_append]
  refine ⟨f.name, rfl, (accepts_many (b := true) (lits_free _)).mpr ⟨_, logSuffix, hname, hfront, ?_⟩⟩
  exact accepts_lits.mpr ⟨[], (List.append_nil _).symm, rfl⟩

theorem pattern_comma {project : Text} (hp : isPlain project = true) :
    env.getProjectPattern project ≠ [] ∧ ',' ∉ env.getProjectPattern project := by
  rw [Env.getProjectPattern, hdir]
  refine ⟨List.cons_ne_nil _ _, ?_⟩
  simp only [List.mem_append, not_or]
  exact ⟨⟨⟨by decide, by decide⟩, not_mem_plain hp (by decide)⟩, by decide⟩

theorem excludedPatterns_match {project : Text} (hp : isPlain project = true)
    (hwords : ∀ p ∈ env.defaultOpsProjects, isPlain p = true) (f : LogFile) :
    ((excludedPatterns env project).any fun g => matchesPath g f.path) = true ↔
      covers env project f.ns := by
  have hone {p : Text} (hp : isPlain p = true) :
      matchesPath (env.getProjectPattern p) f.path = true ↔ f.ns = p :=
    matchesPath_project hdir (not_mem_plain hp (by decide)) f
  unfold excludedPatterns covers
  split
  · rw [List.any_map, List.any_eq_true]
    constructor
    · rintro ⟨p, hmem, hmatch⟩
      rw [(hone (hwords p hmem)).mp hmatch]
      exact hmem
    · intro hmem
      exact ⟨f.ns, hmem, (hone (hwords _ hmem)).mpr rfl⟩
  · rw [List.any_cons, List.any_nil, Bool.or_false, hone hp]

theorem throttleSource_paths {project : Text} (hp : isPlain project = true)
    (hwords : ∀ p ∈ env.defaultOpsProjects, isPlain p = true) :
    (throttleSource env project).paths = excludedPatterns env project := by
  have hglobs : ∀ g ∈ excludedPatterns env project, g ≠ [] ∧ ',' ∉ g := by
    intro g hg
    unfold excludedPatterns at hg
    split at hg
    · obtain ⟨p, hmem, rfl⟩ := List.mem_map.mp hg
      exact pattern_comma hdir (hwords p hmem)
    · rw [List.mem_singleton.mp hg]
      exact pattern_comma hdir hp
  have hpath : seedPath env project = Text.join [','] (excludedPatterns env project) := by
    unfold seedPath excludedPatterns
    split <;> rfl
  rw [throttleSource, hpath, splitPaths_join hglobs]

theorem throttleSource_tails {project : Text} (hp : isPlain project = true)
    (hwords : ∀ p ∈ env.defaultOpsProjects, isPlain p = true) (f : LogFile) :
    (throttleSource env project).tails f.path = true ↔ covers env project f.ns := by
  rw [Source.tails, throttleSource_paths hdir hp hwords]
  simp only [throttleSource, List.any_nil, Bool.not_false, Bool.and_true]
  exact excludedPatterns_match hdir hp hwords f

end Matching

end AggregatedLogging.Throttle
