import AggregatedLogging.Throttle.OperationsMeaning

/-! The recorded positions over a history of throttle files. -/
namespace AggregatedLogging.Throttle

open Regex Glob Fluentd
open Python (Dict Key Order)

/-- The file that the positions of a namespace are moved to: that of the first
project that looks for them. -/
def destination (env : Env) (ps : List (Text × List Setting)) (ns : Text) : Text :=
  ((ps.find? fun p => ns ∈ seedMoves env p.1).map fun p => seedPosFile env p.1).getD env.contPosFile

/-- Every recorded position is in the file of the source that tails the log. -/
def Consistent (w : World) : Prop :=
  ∀ file f, Has w.positions file f →
    w.tailers f.path ≠ [] ∧ ∀ s ∈ w.tailers f.path, s.posFile = file

/-- A run that starts from an empty directory. -/
def reconfigure (env : Env) (clock : Nat → Day) (w : World) (c : Order × Document) : Outcome :=
  run env clock c.1 c.2 { w with conf := Dict.empty }

def history (env : Env) (clock : Nat → Day) (w : World) (cs : List (Order × Document)) : Outcome :=
  cs.foldlM (reconfigure env clock) w

/-- The file is the one into which every source that tails the logs of a namespace
looks. -/
structure Looks (env : Env) (d : Document) (file ns : Text) : Prop where
  own : ∀ p ∈ throttled d.parsed, covers env p.1 ns → seedPosFile env p.1 = file
  default : (∀ p ∈ throttled d.parsed, ¬ covers env p.1 ns) → env.contPosFile = file

/-- Where the next run has to find the position of a log file: in the default file,
in one that is given back when nothing is throttled, or in the file of a project
that stays throttled. -/
def Follows (env : Env) (d : Document) (file ns : Text) : Prop :=
  file = env.contPosFile ∨
    if throttled d.parsed = [] then isThrottleFile env file = true
    else ∃ p ∈ throttled d.parsed, covers env p.1 ns ∧ seedPosFile env p.1 = file

def OneFile (env : Env) (d : Document) (ns : Text) : Prop :=
  ∀ p ∈ throttled d.parsed, ∀ q ∈ throttled d.parsed, covers env p.1 ns → covers env q.1 ns →
    seedPosFile env p.1 = seedPosFile env q.1

structure Plain (env : Env) (d : Document) (w : World) : Prop where
  tame : Tame env d
  own : ∀ p ∈ throttled d.parsed, ∀ q ∈ seedMoves env p.1,
    FindsOwn q (w.positions.content env.contPosFile)

structure Carries (env : Env) (d : Document) (w : World) : Prop where
  plain : Plain env d w
  follows : ∀ file f, Has w.positions file f → Follows env d file f.ns
  oneFile : ∀ file f, Has w.positions file f → OneFile env d f.ns

def CarriesAll (env : Env) (clock : Nat → Day) : World → List (Order × Document) → Prop
  | _, [] => True
  | w, c :: cs => Carries env c.2 w ∧
      ∀ w', reconfigure env clock w c = .ok w' → CarriesAll env clock w' cs

section Back

theorem everyRegex_found (e : Entry) : everyRegex.found e.line = true := by
  have hempty (s : State) : (flat []).run Dialect.ruby.flags s ≠ [] := List.cons_ne_nil _ _
  have hfl : Dialect.ruby.flags.ignoreCase = false := rfl
  have hdot : Dialect.ruby.flags.dotAll = false := rfl
  obtain ⟨hpod, hns, hid⟩ := e.file.not_mem_parts (x := '\n') (by decide)
  have hfront : '\n' ∉ containersDir ++ e.file.pod := by
    rw [List.mem_append, not_or]
    exact ⟨by decide, hpod⟩
  rw [Pattern.found_behind]
  simp only [everyRegex, flat_anything_run hdot, flat_one_run hfl,
    flat_eat_run (dot_run Dialect.ruby.flags), ne_eq, hempty, not_false_eq_true, and_true]
  rw [e.line_split]
  exact ⟨[], _, rfl, containersDir ++ e.file.pod, _, rfl, hfront, _, rfl, e.file.ns, _, rfl, hns, _,
    rfl, e.file.containerId, _, rfl, hid, '.', _, rfl, by simp [hdot], _, rfl, _, rfl, _, rfl⟩

theorem grep_every (es : List Entry) : grep everyRegex (render es) = es.map Entry.line := by
  rw [grep, lines_render, List.filter_eq_self]
  intro l hl
  obtain ⟨e, -, rfl⟩ := List.mem_map.mp hl
  exact everyRegex_found e

theorem without_self (es : List Entry) : without es es = [] := by
  rw [without, List.filter_eq_nil_iff]
  intro e he
  rw [decide_eq_true_eq, not_not]
  exact List.mem_map_of_mem he

theorem moveBack_transfers {fs : Files} (h : Rendered fs) {sourceFile destFile : Text}
    (hne : sourceFile ≠ destFile) :
    ∃ fs', movePosFileProjectEntry fs sourceFile destFile ['.', '*'] = some fs' ∧
      Transfers fs fs' sourceFile destFile fun _ => True := by
  cases hsource : fs.text sourceFile with
  | none =>
    refine ⟨fs, ?_, transfers_absent h hsource _⟩
    rw [movePosFileProjectEntry, hsource]
  | some text =>
    obtain ⟨source, rfl⟩ := h sourceFile text hsource
    obtain ⟨dest, hdest⟩ := h.content destFile
    have hcontent : fs.content sourceFile = render source := by
      rw [Files.content, hsource, Option.getD_some]
    have hkept (text : Text) : (fs.write destFile text).content sourceFile = render source := by
      rw [Files.content, Files.text_write, if_neg hne, hsource, Option.getD_some]
    have hall : (source.filter fun e => True) = source := by simp
    have hnone : (source.filter fun e => ¬ True) = without source source := by
      rw [without_self]
      simp
    have hwrites := transfers_writes h hne hcontent hdest fun _ => True
    refine ⟨_, ?_, hwrites⟩
    simp only [movePosFileProjectEntry, hsource, compile_every, Option.map_some, grep_every, hdest,
      updated_render, hkept, remaining_render, hall, hnone]

theorem foldlM_moveBack {destFile : Text} {files : List Text} (hdest : destFile ∉ files)
    {fs : Files} (h : Rendered fs) :
    ∃ fs', files.foldlM (fun fs file => movePosFileProjectEntry fs file destFile ['.', '*']) fs =
        some fs' ∧ Rendered fs' ∧
      (∀ f, Has fs' destFile f ↔ Has fs destFile f ∨ ∃ file ∈ files, Has fs file f) ∧
      ∀ file, file ≠ destFile → ∀ f, Has fs' file f ↔ Has fs file f ∧ file ∉ files := by
  induction files generalizing fs with
  | nil => exact ⟨fs, rfl, h, by simp, by simp⟩
  | cons src files ih =>
    rw [List.mem_cons, not_or] at hdest
    obtain ⟨fs', hmove, htransfer⟩ := moveBack_transfers h (Ne.symm hdest.1)
    obtain ⟨fs'', hrest, hrendered, hin, hout⟩ := ih hdest.2 htransfer.rendered
    have hsource (f : LogFile) : ¬ Has fs' src f := by
      rw [htransfer.source]
      simp
    refine ⟨fs'', ?_, hrendered, fun f => ?_, fun file hfile f => ?_⟩
    · rw [List.foldlM_cons, hmove]
      exact hrest
    · rw [hin, htransfer.dest]
      constructor
      · rintro ((hd | ⟨hs, -⟩) | ⟨file, hmem, hf⟩)
        · exact .inl hd
        · exact .inr ⟨src, List.mem_cons_self, hs⟩
        · have hother : file ≠ src := by
            rintro rfl
            exact hsource f hf
          have hdest' : file ≠ destFile := by
            rintro rfl
            exact hdest.2 hmem
          exact .inr ⟨file, List.mem_cons_of_mem _ hmem, (htransfer.other file hother hdest' f).mp hf⟩
      · rintro (hd | ⟨file, hmem, hf⟩)
        · exact .inl (.inl hd)
        · by_cases hsame : file = src
          · subst hsame
            exact .inl (.inr ⟨hf, trivial⟩)
          · have hmem' := (List.mem_cons.mp hmem).resolve_left hsame
            have hdest' : file ≠ destFile := by
              rintro rfl
              exact hdest.2 hmem'
            exact .inr ⟨file, hmem', (htransfer.other file hsame hdest' f).mpr hf⟩
    · rw [hout file hfile]
      by_cases hsame : file = src
      · subst hsame
        constructor
        · rintro ⟨hf, -⟩
          exact absurd hf (hsource f)
        · rintro ⟨-, hnot⟩
          exact absurd List.mem_cons_self hnot
      · rw [htransfer.other file hsame hfile f, List.mem_cons, not_or]
        exact ⟨fun hf => ⟨hf.1, hsame, hf.2⟩, fun hf => ⟨hf.1, hf.2.2⟩⟩

end Back

section Forth

variable {env : Env}

theorem covers_iff {project ns : Text} : covers env project ns ↔ ns ∈ seedMoves env project := by
  unfold covers seedMoves
  split
  · rfl
  · exact List.mem_singleton.symm

theorem destination_cons (p : Text × List Setting) (ps : List (Text × List Setting)) (ns : Text) :
    destination env (p :: ps) ns =
      if ns ∈ seedMoves env p.1 then seedPosFile env p.1 else destination env ps ns := by
  unfold destination
  rw [List.find?_cons]
  by_cases h : ns ∈ seedMoves env p.1
  · rw [if_pos h, decide_eq_true h]
    rfl
  · rw [if_neg h, decide_eq_false h]

theorem destination_cases (ps : List (Text × List Setting)) (ns : Text) :
    (∃ p ∈ ps, covers env p.1 ns ∧ destination env ps ns = seedPosFile env p.1) ∨
      (∀ p ∈ ps, ¬ covers env p.1 ns) ∧ destination env ps ns = env.contPosFile := by
  induction ps with
  | nil => exact .inr ⟨nofun, rfl⟩
  | cons p ps ih =>
    rw [destination_cons]
    by_cases h : ns ∈ seedMoves env p.1
    · rw [if_pos h]
      exact .inl ⟨p, List.mem_cons_self, covers_iff.mpr h, rfl⟩
    · rw [if_neg h]
      rcases ih with ⟨q, hq, hcovers, hdest⟩ | ⟨hno, hdest⟩
      · exact .inl ⟨q, List.mem_cons_of_mem p hq, hcovers, hdest⟩
      · refine .inr ⟨fun q hq hcovers => ?_, hdest⟩
        rcases List.mem_cons.mp hq with rfl | hq
        · exact h (covers_iff.mp hcovers)
        · exact hno q hq hcovers

theorem foldl_movedBy {ps : List (Text × List Setting)}
    (hne : ∀ p ∈ ps, env.contPosFile ≠ seedPosFile env p.1) {fs : Files}
    (hp : ∀ p ∈ ps, ∀ q ∈ seedMoves env p.1,
      isPlain q = true ∧ FindsOwn q (fs.content env.contPosFile)) (h : Rendered fs) :
    Rendered (ps.foldl (fun fs p => movedBy env p.1 fs) fs) ∧
      ∀ file f, Has (ps.foldl (fun fs p => movedBy env p.1 fs) fs) file f ↔
        (file ≠ env.contPosFile ∧ Has fs file f) ∨
          (Has fs env.contPosFile f ∧ file = destination env ps f.ns) := by
  induction ps generalizing fs with
  | nil =>
    refine ⟨h, fun file f => ?_⟩
    by_cases hfile : file = env.contPosFile
    · subst hfile
      simp [destination]
    · simp [destination, hfile]
  | cons p ps ih =>
    have hhere := hne p List.mem_cons_self
    obtain ⟨htransfer, hshrinks⟩ := movedBy_transfers hhere (hp p List.mem_cons_self) h
    obtain ⟨hrendered, hhas⟩ := ih (fun q hq => hne q (List.mem_cons_of_mem p hq))
      (fun q hq r hr =>
        have hlater := hp q (List.mem_cons_of_mem p hq) r hr
        ⟨hlater.1, hlater.2.of_lines hshrinks⟩) htransfer.rendered
    refine ⟨hrendered, fun file f => ?_⟩
    rw [List.foldl_cons, hhas, htransfer.source, destination_cons]
    have hother : file ≠ env.contPosFile → (Has (movedBy env p.1 fs) file f ↔
        Has fs file f ∨ (file = seedPosFile env p.1 ∧ Has fs env.contPosFile f ∧
          f.ns ∈ seedMoves env p.1)) := by
      intro hfile
      by_cases hdest : file = seedPosFile env p.1
      · subst hdest
        rw [htransfer.dest]
        tauto
      · rw [htransfer.other file hfile hdest]
        tauto
    by_cases hns : f.ns ∈ seedMoves env p.1
    · rw [if_pos hns]
      constructor
      · rintro (⟨hfile, hf⟩ | ⟨⟨-, hnot⟩, -⟩)
        · rcases (hother hfile).mp hf with hf | ⟨hdest, hf, -⟩
          · exact .inl ⟨hfile, hf⟩
          · exact .inr ⟨hf, hdest⟩
        · exact absurd hns hnot
      · rintro (⟨hfile, hf⟩ | ⟨hf, rfl⟩)
        · exact .inl ⟨hfile, (hother hfile).mpr (.inl hf)⟩
        · exact .inl ⟨hhere.symm, (hother hhere.symm).mpr (.inr ⟨rfl, hf, hns⟩)⟩
    · rw [if_neg hns]
      constructor
      · rintro (⟨hfile, hf⟩ | ⟨⟨hf, -⟩, hdest⟩)
        · exact .inl ⟨hfile, ((hother hfile).mp hf).resolve_right fun h => hns h.2.2⟩
        · exact .inr ⟨hf, hdest⟩
      · rintro (⟨hfile, hf⟩ | ⟨hf, hdest⟩)
        · exact .inl ⟨hfile, (hother hfile).mpr (.inl hf)⟩
        · exact .inr ⟨⟨hf, hns⟩, hdest⟩

end Forth

section Step

variable {env : Env} (clock : Nat → Day) {d : Document}

theorem looks_none (hnone : throttled d.parsed = []) {file ns : Text} :
    Looks env d file ns ↔ file = env.contPosFile := by
  constructor
  · intro h
    refine (h.default fun p hp => ?_).symm
    rw [hnone] at hp
    contradiction
  · rintro rfl
    refine ⟨fun p hp => ?_, fun _ => rfl⟩
    rw [hnone] at hp
    contradiction

theorem oneFile_none (hnone : throttled d.parsed = []) (ns : Text) : OneFile env d ns := by
  intro p hp
  rw [hnone] at hp
  contradiction

theorem looks_of_ne {file ns : Text} (hfile : file ≠ env.contPosFile) :
    Looks env d file ns ↔
      (∃ p ∈ throttled d.parsed, covers env p.1 ns ∧ seedPosFile env p.1 = file) ∧
        OneFile env d ns := by
  constructor
  · intro h
    refine ⟨?_, fun p hp q hq hcp hcq => ?_⟩
    · by_contra hno
      push Not at hno
      exact hfile (h.default fun p hp hc => hno p hp hc (h.own p hp hc)).symm
    · rw [h.own p hp hcp, h.own q hq hcq]
  · rintro ⟨⟨p, hp, hcovers, rfl⟩, hone⟩
    exact ⟨fun q hq hc => hone q hq p hp hc hcovers, fun hno => absurd hcovers (hno p hp)⟩

theorem looks_destination {ns : Text} :
    Looks env d (destination env (throttled d.parsed) ns) ns ↔ OneFile env d ns := by
  constructor
  · intro h p hp q hq hcp hcq
    rw [h.own p hp hcp, h.own q hq hcq]
  · intro hone
    rcases destination_cases (throttled d.parsed) ns with ⟨p, hp, hcovers, hdest⟩ | ⟨hno, hdest⟩
    · rw [hdest]
      exact ⟨fun q hq hc => hone q hq p hp hc hcovers, fun hno => absurd hcovers (hno p hp)⟩
    · rw [hdest]
      exact ⟨fun q hq hc => absurd hc (hno q hq), fun _ => rfl⟩

/-- The names of the position files begin with a text that is no pattern, and that
of the default one is none of them. -/
structure PosFiles (env : Env) : Prop where
  literal : ∀ c ∈ env.containerPosFilePrefix, isGlobChar c = false
  apart : isThrottleFile env env.contPosFile = false

theorem isThrottleFile_name (hliteral : ∀ c ∈ env.containerPosFilePrefix, isGlobChar c = false)
    {name : Text} (hname : '/' ∉ name) :
    isThrottleFile env (env.getContPosFileName name) = true := by
  have hstar : '*' ∉ env.containerPosFilePrefix := fun h => absurd (hliteral _ h) (by decide)
  have hitems : (env.containerPosFilePrefix ++ "*.log.pos".toList).map globItem =
      lits env.containerPosFilePrefix ++ Item.many '/' :: lits ".log.pos".toList := by
    rw [List.map_append, map_globItem hstar]
    rfl
  rw [isThrottleFile, matchesPath, hitems, exactly, Env.getContPosFileName, List.append_assoc]
  refine accepts_lits_append.mpr ⟨name ++ ".log.pos".toList, rfl, ?_⟩
  refine (accepts_many (b := true) (lits_free _)).mpr ⟨name, ".log.pos".toList, rfl, hname, ?_⟩
  exact accepts_lits.mpr ⟨[], (List.append_nil _).symm, rfl⟩

theorem isThrottleFile_seedPosFile
    (hliteral : ∀ c ∈ env.containerPosFilePrefix, isGlobChar c = false) {project : Text}
    (hp : isPlain project = true) : isThrottleFile env (seedPosFile env project) = true := by
  unfold seedPosFile
  split
  · exact isThrottleFile_name hliteral (by decide)
  · exact isThrottleFile_name hliteral (not_mem_plain hp (by decide))

theorem mem_getAllThrottleFiles {o : Order} {fs : Files} {file : Text} :
    file ∈ getAllThrottleFiles env o fs ↔
      (fs.text file).isSome = true ∧ isThrottleFile env file = true := by
  rw [getAllThrottleFiles, List.mem_filter, List.mem_filterMap]
  refine and_congr_left fun _ => ?_
  constructor
  · rintro ⟨key, hkey, htext⟩
    rw [Key.text?_eq_some.mp htext, Order.mem_keys] at hkey
    exact hkey
  · intro h
    exact ⟨Key.str file, Order.mem_keys.mpr h, Key.text?_str file⟩

theorem text_of_has {fs : Files} {file : Text} {f : LogFile} (h : Has fs file f) :
    (fs.text file).isSome = true := by
  cases htext : fs.text file with
  | none =>
    rw [Has, Files.content, htext] at h
    contradiction
  | some text => rfl

variable (hdeployed : Deployed env) (hfiles : PosFiles env)

include hfiles in
theorem contPosFile_ne {project : Text} (hp : isPlain project = true) :
    env.contPosFile ≠ seedPosFile env project := by
  intro h
  have hapart := hfiles.apart
  rw [h, isThrottleFile_seedPosFile hfiles.literal hp] at hapart
  contradiction

include hdeployed

theorem mem_tailers (htame : Tame env d) (o : Order) {w : World} (hempty : w.conf.entries = [])
    (f : LogFile) (s : Source) :
    s ∈ (ranWorld env clock o d w).tailers f.path ↔
      (∃ p ∈ throttled d.parsed, covers env p.1 f.ns ∧ s = throttleSource env p.1) ∨
        (∀ p ∈ throttled d.parsed, ¬ covers env p.1 f.ns) ∧ s = (defaultInputOf env d).source := by
  have htails {p : Text × List Setting} (hp : p ∈ throttled d.parsed) :=
    throttleSource_tails hdeployed.dir (htame.names p hp) htame.words f
  have hdefault := defaultInput_tails hdeployed htame f
  rw [World.tailers, ranWorld_sources o hempty, List.mem_filter, List.mem_append, List.mem_map,
    List.mem_singleton]
  constructor
  · rintro ⟨⟨p, hp, rfl⟩ | rfl, hs⟩
    · exact .inl ⟨p, hp, (htails hp).mp hs, rfl⟩
    · exact .inr ⟨hdefault.mp hs, rfl⟩
  · rintro (⟨p, hp, hcovers, rfl⟩ | ⟨hnone, rfl⟩)
    · exact ⟨.inl ⟨p, hp, rfl⟩, (htails hp).mpr hcovers⟩
    · exact ⟨.inr rfl, hdefault.mpr hnone⟩

/-- Behind a run the positions are where they belong when every file with a
position is one that the sources of its log look into. -/
theorem consistent_ranWorld (htame : Tame env d) (o : Order) {w : World}
    (hempty : w.conf.entries = []) :
    Consistent (ranWorld env clock o d w) ↔ ∀ file f,
      Has (ranWorld env clock o d w).positions file f → Looks env d file f.ns := by
  refine forall₂_congr fun file f => imp_congr_right fun _ => ?_
  have hmem := mem_tailers clock hdeployed htame o hempty f
  constructor
  · rintro ⟨-, hall⟩
    refine ⟨fun p hp hcovers => ?_, fun hnone => ?_⟩
    · exact hall _ ((hmem _).mpr (.inl ⟨p, hp, hcovers, rfl⟩))
    · exact hall _ ((hmem _).mpr (.inr ⟨hnone, rfl⟩))
  · intro hlooks
    constructor
    · by_cases hnone : ∀ p ∈ throttled d.parsed, ¬ covers env p.1 f.ns
      · exact List.ne_nil_of_mem ((hmem _).mpr (.inr ⟨hnone, rfl⟩))
      · push Not at hnone
        obtain ⟨p, hp, hcovers⟩ := hnone
        exact List.ne_nil_of_mem ((hmem _).mpr (.inl ⟨p, hp, hcovers, rfl⟩))
    · intro s hs
      rcases (hmem s).mp hs with ⟨p, hp, hcovers, rfl⟩ | ⟨hnone, rfl⟩
      · exact hlooks.own p hp hcovers
      · exact hlooks.default hnone

omit hdeployed in
include hfiles in
theorem revertedBy_has (o : Order) {fs : Files} (h : Rendered fs) :
    Rendered (revertedBy env o fs) ∧ ∀ file, file ≠ env.contPosFile → ∀ f,
      Has (revertedBy env o fs) file f ↔ Has fs file f ∧ isThrottleFile env file = false := by
  have hdest : env.contPosFile ∉ getAllThrottleFiles env o fs := by
    rw [mem_getAllThrottleFiles, hfiles.apart]
    simp
  obtain ⟨fs', hfold, hrendered, -, hout⟩ := foldlM_moveBack hdest h
  rw [revertedBy, hfold, Option.getD_some]
  refine ⟨hrendered, fun file hfile f => ?_⟩
  rw [hout file hfile, mem_getAllThrottleFiles, not_and, Bool.not_eq_true]
  exact and_congr_right fun hf => ⟨fun h => h (text_of_has hf), fun h _ => h⟩

omit hdeployed in
theorem reconfigure_eq (htame : Tame env d) (o : Order) {w : World} :
    reconfigure env clock w (o, d) = .ok (ranWorld env clock o d { w with conf := Dict.empty }) :=
  run_eq (fun _ hp => htame.writable hp _) fun p _ => fresh_of_empty rfl p.1

omit hdeployed in
include hfiles in
theorem has_ranWorld (hsome : throttled d.parsed ≠ []) {w : World} (h : Rendered w.positions)
    (hplain : Plain env d w) (o : Order) :
    Rendered (ranWorld env clock o d { w with conf := Dict.empty }).positions ∧
      ∀ file f, Has (ranWorld env clock o d { w with conf := Dict.empty }).positions file f ↔
        (file ≠ env.contPosFile ∧ Has w.positions file f) ∨
          (Has w.positions env.contPosFile f ∧
            file = destination env (throttled d.parsed) f.ns) := by
  have hpositions : (ranWorld env clock o d { w with conf := Dict.empty }).positions =
      (throttled d.parsed).foldl (fun fs p => movedBy env p.1 fs) w.positions :=
    (if_neg hsome).trans (foldl_positions _ _)
  rw [hpositions]
  refine foldl_movedBy (fun p hp => contPosFile_ne hfiles (hplain.tame.names p hp)) ?_ h
  intro p hp q hq
  exact ⟨(hplain.tame.named hp).moves q hq, hplain.own p hp q hq⟩

include hfiles

/-- A run keeps the positions consistent exactly when it takes all of them along. -/
theorem reconfigure_consistent {w : World} (h : Rendered w.positions) (hplain : Plain env d w)
    (o : Order) :
    ∃ w', reconfigure env clock w (o, d) = .ok w' ∧ Rendered w'.positions ∧
      (Consistent w' ↔
        ∀ file f, Has w.positions file f → Follows env d file f.ns ∧ OneFile env d f.ns) := by
  have hconsistent := @consistent_ranWorld env clock d hdeployed hplain.tame o
    { w with conf := Dict.empty } rfl
  refine ⟨_, reconfigure_eq clock hplain.tame o, ?_⟩
  rw [hconsistent]
  by_cases hnone : throttled d.parsed = []
  · obtain ⟨hrendered, hhas⟩ := revertedBy_has hfiles o h
    have hpositions : (ranWorld env clock o d { w with conf := Dict.empty }).positions =
        revertedBy env o w.positions := if_pos hnone
    rw [hpositions]
    refine ⟨hrendered, fun hall file f hf => ?_, fun hall file f hf => ?_⟩
    · refine ⟨?_, oneFile_none hnone f.ns⟩
      rw [Follows, if_pos hnone]
      by_contra hnot
      rw [not_or, Bool.not_eq_true] at hnot
      have hlooks := hall file f ((hhas file hnot.1 f).mpr ⟨hf, hnot.2⟩)
      exact hnot.1 ((looks_none hnone).mp hlooks)
    · rw [looks_none hnone]
      by_contra hfile
      obtain ⟨hf', hnot⟩ := (hhas file hfile f).mp hf
      obtain ⟨hfollows, -⟩ := hall file f hf'
      rw [Follows, if_pos hnone, hnot] at hfollows
      exact Bool.false_ne_true (hfollows.resolve_left hfile)
  · obtain ⟨hrendered, hhas⟩ := has_ranWorld clock hfiles hnone h hplain o
    refine ⟨hrendered, fun hall file f hf => ?_, fun hall file f hf => ?_⟩
    · rw [Follows, if_neg hnone]
      by_cases hfile : file = env.contPosFile
      · subst hfile
        have hlooks := hall _ f ((hhas _ f).mpr (.inr ⟨hf, rfl⟩))
        exact ⟨.inl rfl, looks_destination.mp hlooks⟩
      · have hlooks := hall file f ((hhas file f).mpr (.inl ⟨hfile, hf⟩))
        obtain ⟨hfollows, hone⟩ := (looks_of_ne hfile).mp hlooks
        exact ⟨.inr hfollows, hone⟩
    · rcases (hhas file f).mp hf with ⟨hfile, hf'⟩ | ⟨hf', hdest⟩
      · obtain ⟨hfollows, hone⟩ := hall file f hf'
        rw [Follows, if_neg hnone] at hfollows
        exact (looks_of_ne hfile).mpr ⟨hfollows.resolve_left hfile, hone⟩
      · rw [hdest]
        exact looks_destination.mpr (hall _ f hf').2

end Step

section Histories

variable {env : Env} {clock : Nat → Day}

theorem history_two {w w' w'' : World} {b c : Order × Document}
    (hfirst : reconfigure env clock w b = .ok w') (hsecond : reconfigure env clock w' c = .ok w'') :
    history env clock w [b, c] = .ok w'' := by
  have hrest : history env clock w' [c] = .ok w'' := by
    rw [history, List.foldlM_cons, hsecond]
    rfl
  rw [history, List.foldlM_cons, hfirst]
  exact hrest

variable (hdeployed : Deployed env) (hfiles : PosFiles env)

include hdeployed hfiles

/-- After every run of a history that takes the positions along, each of them is in
the file of the source that tails the log. -/
theorem history_consistent {w : World} (h : Rendered w.positions) {cs : List (Order × Document)}
    (hcarries : CarriesAll env clock w cs) {past : List (Order × Document)} {c : Order × Document}
    (hpast : past ++ [c] <+: cs) :
    ∃ w', history env clock w (past ++ [c]) = .ok w' ∧ Consistent w' := by
  induction cs generalizing w past with
  | nil =>
    exact absurd (List.prefix_nil.mp hpast) (by simp)
  | cons b cs ih =>
    obtain ⟨hhere, hlater⟩ := hcarries
    obtain ⟨w', hrun, hrendered, hconsistent⟩ :=
      reconfigure_consistent clock hdeployed hfiles h hhere.plain b.1
    cases past with
    | nil =>
      obtain rfl : c = b := (List.cons_prefix_cons.mp hpast).1
      refine ⟨w', ?_, hconsistent.mpr fun file f hf => ?_⟩
      · rw [List.nil_append, history, List.foldlM_cons, hrun]
        rfl
      · exact ⟨hhere.follows file f hf, hhere.oneFile file f hf⟩
    | cons b' past =>
      obtain ⟨rfl, hprefix⟩ := List.cons_prefix_cons.mp hpast
      obtain ⟨w'', hruns, hconsistent'⟩ := ih hrendered (hlater w' hrun) hprefix
      refine ⟨w'', ?_, hconsistent'⟩
      rw [List.cons_append, history, List.foldlM_cons, hrun]
      exact hruns

end Histories

def webEntry : Entry := sampleEntry "web".toList (Eq.refl true) "0f".toList (Eq.refl true)

def readWorld : World :=
  { positionedWorld webEntry with defaultInput := some (defaultInputOf plainEnv .absent) }

theorem has_readWorld {file : Text} {f : LogFile} (h : Has readWorld.positions file f) :
    file = plainEnv.contPosFile ∧ f.path = webEntry.path := by
  have hfile : file = plainEnv.contPosFile := by
    by_contra hfile
    have htext : readWorld.positions.text file = none := by
      change (positionedWorld webEntry).positions.text file = none
      rw [positionedWorld, Files.text_write, if_neg hfile]
      rfl
    have hsome := text_of_has h
    rw [htext] at hsome
    contradiction
  subst hfile
  have hcontent : readWorld.positions.content plainEnv.contPosFile = render [webEntry] := by
    rw [Files.content]
    change ((positionedWorld webEntry).positions.text plainEnv.contPosFile).getD [] = _
    rw [positionedWorld, Files.text_write, if_pos rfl, Option.getD_some]
  rw [has_iff hcontent] at h
  exact ⟨rfl, List.mem_singleton.mp h⟩

theorem rendered_readWorld : Rendered readWorld.positions := rendered_positionedWorld webEntry

theorem consistent_readWorld : Consistent readWorld := by
  intro file f hf
  have htame : Tame plainEnv .absent := ⟨nofun, by decide, nofun, nofun⟩
  have htails := (defaultInput_tails deployed_plainEnv htame f).mpr nofun
  have hone : readWorld.tailers f.path = [(defaultInputOf plainEnv .absent).source] :=
    List.filter_cons_of_pos htails
  rw [hone, (has_readWorld hf).1]
  refine ⟨List.cons_ne_nil _ _, fun s hs => ?_⟩
  rw [List.mem_singleton.mp hs]
  rfl

def limitOnly (project : Text) : Order × Document := (.insertion, .pairs [limited project])

theorem throttled_limitOnly_web : throttled (limitOnly "web".toList).2.parsed =
    [("web".toList, [⟨readLinesLimit, "10".toList⟩])] := by decide +kernel

theorem throttled_limitOnly_api : throttled (limitOnly "api".toList).2.parsed =
    [("api".toList, [⟨readLinesLimit, "10".toList⟩])] := by decide +kernel

theorem plain_limitOnly {project : Text}
    (hp : throttled (limitOnly project).2.parsed = [(project, [⟨readLinesLimit, "10".toList⟩])])
    (hlabel : isLabel project = true) (hfits : Fits plainEnv project) (w : World) :
    Plain plainEnv (limitOnly project).2 w where
  tame := by
    refine ⟨?_, by decide, ?_, ?_⟩
    · rw [hp, List.forall_mem_singleton]
      exact (isPlain_of_isLabel hlabel).1
    · rw [hp, List.flatMap_singleton, List.forall_mem_singleton]
      decide
    · rw [hp, List.forall_mem_singleton]
      exact hfits
  own := by
    rw [hp, List.forall_mem_singleton]
    intro q hq
    have hother : project ≠ operations := by
      rintro rfl
      exact absurd hlabel (by decide)
    rw [seedMoves, if_neg hother, List.mem_singleton] at hq
    rw [hq]
    exact .inl (isPlain_of_isLabel hlabel).2

theorem posFiles_default : PosFiles plainEnv :=
  ⟨Text.forall_of_all (by decide +kernel), by decide +kernel⟩

theorem has_limited_web :
    Rendered (ranWorld plainEnv (fun _ => newYear) .insertion (limitOnly "web".toList).2
        { readWorld with conf := Dict.empty }).positions ∧
      ∀ file f, Has (ranWorld plainEnv (fun _ => newYear) .insertion (limitOnly "web".toList).2
          { readWorld with conf := Dict.empty }).positions file f ↔
        (file ≠ plainEnv.contPosFile ∧ Has readWorld.positions file f) ∨
          (Has readWorld.positions plainEnv.contPosFile f ∧
            file = destination plainEnv (throttled (limitOnly "web".toList).2.parsed) f.ns) := by
  have hsome : throttled (limitOnly "web".toList).2.parsed ≠ [] := by
    rw [throttled_limitOnly_web]
    exact List.cons_ne_nil _ _
  exact has_ranWorld (fun _ => newYear) posFiles_default hsome rendered_readWorld
    (plain_limitOnly throttled_limitOnly_web (by decide) (by decide) readWorld) .insertion

def released : Order × Document := (.insertion, .absent)

theorem plain_released (w : World) : Plain plainEnv released.2 w where
  tame := ⟨nofun, by decide, nofun, nofun⟩
  own := nofun

/-- A project with a position is throttled, and then it no longer is. -/
theorem history_consistent_web : ∃ w', history plainEnv (fun _ => newYear) readWorld
    ([limitOnly "web".toList] ++ [released]) = .ok w' ∧ Consistent w' := by
  have hone (ns : Text) : OneFile plainEnv (limitOnly "web".toList).2 ns := by
    intro p hp q hq _ _
    rw [throttled_limitOnly_web, List.mem_singleton] at hp hq
    rw [hp, hq]
  have hplain := plain_limitOnly throttled_limitOnly_web (by decide) (by decide) readWorld
  have hfirst : Carries plainEnv (limitOnly "web".toList).2 readWorld :=
    ⟨hplain, fun _ _ hf => .inl (has_readWorld hf).1, fun _ f _ => hone f.ns⟩
  -- what the first run has moved is in a file that the second one gives back
  have hback {file : Text} {f : LogFile}
      (hf : Has (ranWorld plainEnv (fun _ => newYear) .insertion (limitOnly "web".toList).2
        { readWorld with conf := Dict.empty }).positions file f) :
      Follows plainEnv released.2 file f.ns := by
    rcases (has_limited_web.2 _ _).mp hf with ⟨hfile, hf⟩ | ⟨-, rfl⟩
    · exact absurd (has_readWorld hf).1 hfile
    · rcases destination_cases (throttled (limitOnly "web".toList).2.parsed) f.ns with
        ⟨p, hp, -, hdest⟩ | ⟨-, hdest⟩
      · rw [hdest]
        exact .inr (isThrottleFile_seedPosFile posFiles_default.literal (hplain.tame.names p hp))
      · exact .inl hdest
  have hcarries : CarriesAll plainEnv (fun _ => newYear) readWorld
      [limitOnly "web".toList, released] := by
    refine ⟨hfirst, fun w' hrun => ⟨?_, fun _ _ => trivial⟩⟩
    obtain rfl := Except.ok.inj ((reconfigure_eq (fun _ => newYear) hplain.tame .insertion).symm.trans hrun)
    exact ⟨plain_released _, fun _ _ hf => hback hf, fun _ f _ => oneFile_none rfl f.ns⟩
  exact history_consistent deployed_plainEnv posFiles_default rendered_readWorld hcarries
    (List.prefix_refl [limitOnly "web".toList, released])

/-- When another project is throttled instead, the positions stay behind in the file
of the first one, which no source reads. -/
theorem not_consistent_swapped : Consistent readWorld ∧ ∃ w', history plainEnv (fun _ => newYear)
    readWorld [limitOnly "web".toList, limitOnly "api".toList] = .ok w' ∧ ¬ Consistent w' := by
  have hplain := plain_limitOnly throttled_limitOnly_web (by decide) (by decide) readWorld
  obtain ⟨hrendered, hhas⟩ := has_limited_web
  have hmoved : Has (ranWorld plainEnv (fun _ => newYear) .insertion (limitOnly "web".toList).2
      { readWorld with conf := Dict.empty }).positions (seedPosFile plainEnv "web".toList)
      webEntry.file := by
    refine (hhas _ _).mpr (.inr ⟨has_positionedWorld webEntry, ?_⟩)
    rw [throttled_limitOnly_web, destination_cons, if_pos (by decide)]
  obtain ⟨w', hrun, -, hconsistent⟩ := reconfigure_consistent (fun _ => newYear)
    deployed_plainEnv posFiles_default hrendered
    (plain_limitOnly throttled_limitOnly_api (by decide) (by decide) _) .insertion
  refine ⟨consistent_readWorld, w', ?_, fun hc => ?_⟩
  · exact history_two (reconfigure_eq (fun _ => newYear) hplain.tame .insertion) hrun
  · obtain ⟨hfollows, -⟩ := hconsistent.mp hc _ _ hmoved
    rw [Follows, throttled_limitOnly_api, if_neg (List.cons_ne_nil _ _)] at hfollows
    rcases hfollows with hfile | ⟨p, hp, hcovers, -⟩
    · exact contPosFile_ne posFiles_default (by decide) hfile.symm
    · rw [List.mem_singleton.mp hp] at hcovers
      exact absurd hcovers (by decide)

end AggregatedLogging.Throttle
