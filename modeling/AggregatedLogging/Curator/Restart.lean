import AggregatedLogging.Curator.OwnOutput
import AggregatedLogging.Curator.ExitStatus

/-! The converter run a second time, on the files that the first run left. -/
namespace AggregatedLogging.Curator

open Python

section Definitions

variable (lib : YamlLibrary) (env : Env) (o : Order) (files : Files)

/-- What a conversion starts from: the legacy configuration, or what stands in
the place of the output. -/
def conversionSource : Except Failure Internal :=
  match legacyText env files with
  | some text => accept env o (lib.load text)
  | none => parse env o (lib.load ((files (writeLocation env)).getD []))

structure Generates (internal : Internal) : Prop where
  supplied : suppliedActions lib env files = .ok false
  source : conversionSource lib env o files = .ok internal
  actions : generate env o internal = .ok (actionsOf env o internal)

/-- What the curator loads from the file that `run.sh` starts it with. -/
def usedActions (r : Run) : Option (Except ErrorClass Yaml) :=
  (curatorActions env r.status).bind fun path =>
    if path = [] then none else (r.after files path).map lib.load

def RestartStable : Prop :=
  let first := convert lib env o files
  let second := convert lib env o (first.after files)
  usedActions lib env (first.after files) second = usedActions lib env files first

def ReadsOutput : Prop := legacyText env files = none ∨ env.legacyConfig = some (writeLocation env)

/-- The library reads back what it has dumped for these actions. -/
structure YamlLibrary.ReadsBack : Prop where
  empty : lib.load [] = .ok .null
  document : ∀ internal, Generates lib env o files internal → ∃ d,
    lib.load (lib.dump (numbered (actionsOf env o internal))) = .ok d ∧ IsActions d
  injective : ∀ internal p, Generates lib env o files internal → Parser.init env = .ok p →
    lib.load (lib.dump (numbered (actionsOf env o internal))) =
      lib.load (lib.dump (numbered (actionsOf env o (ownInternal p)))) →
    actionsOf env o internal = actionsOf env o (ownInternal p)

/-- A generated file is found again: it is the supplied one, or it is generated
anew, from another file or from itself with the same patterns and retentions.
And a missing configuration does not appear with the output and then fail. -/
structure Restartable : Prop where
  found : ∀ internal, Generates lib env o files internal →
    env.actionsFile = some (writeLocation env) ∨ env.actionsFile ≠ none ∧
      (ReadsOutput env files → ∀ p, Parser.init env = .ok p →
        retentions o internal = [(formatRegex "actions".toList, p.builtinDelete)] ∧
          defaultDelete internal = p.builtinDelete)
  environment : suppliedActions lib env files = .ok false →
    env.legacyConfig = some (writeLocation env) → files (writeLocation env) = none →
      ∃ p, Parser.init env = .ok p

end Definitions

section Restart

variable {lib : YamlLibrary} {env : Env} {o : Order} {files : Files} {internal : Internal}

theorem writeLocation_ne (env : Env) : writeLocation env ≠ [] := by
  intro h
  have hlength := congrArg List.length h
  rw [writeLocation, List.length_append] at hlength
  have hfile : ("/actions.yaml".toList).length = 13 := rfl
  rw [hfile, List.length_nil] at hlength
  omega

theorem curatorActions_one (hhome : env.home.isSome = true) :
    curatorActions env 1 = some (writeLocation env) := by
  obtain ⟨home, hhome⟩ := Option.isSome_iff_exists.mp hhome
  rw [curatorActions, writeLocation, hhome]
  rfl

theorem Files.write_same (files : Files) (path content : Text) :
    files.write path content path = some content := if_pos rfl

theorem Files.write_other (files : Files) {path q : Text} (hq : q ≠ path) (content : Text) :
    files.write path content q = files q := if_neg hq

theorem Files.write_write (files : Files) (path a b : Text) :
    (files.write path a).write path b = files.write path b := by
  funext q
  by_cases hq : q = path
  · rw [hq, write_same, write_same]
  · rw [write_other _ hq, write_other _ hq, write_other _ hq]

theorem Files.write_of_eq {files : Files} {path content : Text} (h : files path = some content) :
    files.write path content = files := by
  funext q
  by_cases hq : q = path
  · rw [hq, write_same, h]
  · rw [write_other _ hq]

theorem convert_generates (h : Generates lib env o files internal) :
    (convert lib env o files).status = 1 ∧ (convert lib env o files).after files =
      files.write (writeLocation env) (lib.dump (numbered (actionsOf env o internal))) := by
  have hsource := h.source
  unfold conversionSource at hsource
  rw [convert, h.supplied]
  cases hlegacy : legacyText env files with
  | some text =>
    rw [hlegacy] at hsource
    simp only [convertConfig, hsource, (accept_ok.mp hsource).1, generateFile, h.actions]
    exact ⟨rfl, rfl⟩
  | none =>
    rw [hlegacy] at hsource
    simp only [convertDefaults, hsource, generateFile, h.actions]
    exact ⟨rfl, files.write_write _ _ _⟩

theorem usedActions_one (hhome : env.home.isSome = true) {r : Run} (hstatus : r.status = 1) :
    usedActions lib env files r = (r.after files (writeLocation env)).map lib.load := by
  rw [usedActions, hstatus, curatorActions_one hhome]
  exact if_neg (writeLocation_ne env)

theorem usedActions_generates (hhome : env.home.isSome = true)
    (h : Generates lib env o files internal) :
    usedActions lib env files (convert lib env o files) =
      some (lib.load (lib.dump (numbered (actionsOf env o internal)))) := by
  obtain ⟨hstatus, hafter⟩ := convert_generates h
  rw [usedActions_one hhome hstatus, hafter, Files.write_same, Option.map_some]

theorem Generates.init (h : Generates lib env o files internal) : ∃ p, Parser.init env = .ok p := by
  have hsource := h.source
  unfold conversionSource at hsource
  split at hsource
  · obtain ⟨p, hp, -⟩ := bind_ok.mp (accept_ok.mp hsource).1
    exact ⟨p, hp⟩
  · obtain ⟨p, hp, -⟩ := bind_ok.mp hsource
    exact ⟨p, hp⟩

theorem suppliedActions_other (hother : actionsPath env ≠ writeLocation env) (content : Text) :
    suppliedActions lib env (files.write (writeLocation env) content) =
      suppliedActions lib env files := by
  rw [suppliedActions, suppliedActions, Files.write_other _ hother]

theorem suppliedActions_output (hsame : actionsPath env = writeLocation env) {content : Text}
    {d : Yaml} (hload : lib.load content = .ok d) (hd : IsActions d) :
    suppliedActions lib env (files.write (writeLocation env) content) = .ok true := by
  obtain ⟨entries, rfl, -, -⟩ := hd
  have hmember : (Dict.ofList [(actionsKey, Yaml.map entries)]).contains actionsKey = true := by
    simp [Dict.contains, Dict.get?_ofList]
  rw [suppliedActions, hsame, Files.write_same]
  simp only [isEmptyActionsFile, hload, bind, Except.bind, Yaml.hasMember]
  change Except.map _ (Except.ok !(Dict.ofList [(actionsKey, Yaml.map entries)]).contains actionsKey) = _
  rw [hmember]
  rfl

theorem suppliedActions_blank (hload : lib.load [] = .ok .null)
    (hsame : actionsPath env = writeLocation env) :
    suppliedActions lib env (files.write (writeLocation env) []) = .ok false := by
  rw [suppliedActions, hsame, Files.write_same]
  simp only [isEmptyActionsFile, hload, bind, Except.bind]
  rfl

theorem legacyText_write (content : Text) :
    legacyText env (files.write (writeLocation env) content) =
      if env.legacyConfig = some (writeLocation env) then some content else legacyText env files := by
  unfold legacyText
  cases env.legacyConfig with
  | none => rfl
  | some path =>
    simp only [Option.bind_some, Option.some.injEq]
    by_cases hpath : path = writeLocation env
    · rw [if_pos hpath, hpath, if_neg (writeLocation_ne env), Files.write_same]
    · rw [if_neg hpath, Files.write_other _ hpath]

theorem stable_of_unchanged (h : (convert lib env o files).after files = files) :
    RestartStable lib env o files := by
  rw [RestartStable]
  simp only [h]

theorem convert_legacy_fails {text : Text} (hsupplied : suppliedActions lib env files = .ok false)
    (hlegacy : legacyText env files = some text) {e : Failure}
    (h : accept env o (lib.load text) = .error e) :
    convert lib env o files = if e.isValueError then ⟨.ok 2, []⟩ else ⟨.error e, []⟩ := by
  rw [convert, hsupplied]
  simp only [hlegacy, convertConfig_of_error h]

theorem convert_defaults_fails (hsupplied : suppliedActions lib env files = .ok false)
    (hlegacy : legacyText env files = none) (hnone : ∀ internal, ¬ Generates lib env o files internal) :
    ∃ e, convert lib env o files =
      ⟨.error e, [(writeLocation env, (files (writeLocation env)).getD [])]⟩ := by
  rw [convert, hsupplied]
  simp only [hlegacy, convertDefaults]
  cases hparse : parse env o (lib.load ((files (writeLocation env)).getD [])) with
  | error e => exact ⟨e, rfl⟩
  | ok internal =>
    simp only [generateFile]
    cases hgenerate : generate env o internal with
    | error e => exact ⟨e, rfl⟩
    | ok actions =>
      obtain ⟨u, -, hactions⟩ := bind_ok.mp hgenerate
      rw [← Except.ok.inj hactions] at hgenerate
      have hsource : conversionSource lib env o files = .ok internal := by
        rw [conversionSource, hlegacy]
        exact hparse
      exact absurd ⟨hsupplied, hsource, hgenerate⟩ (hnone internal)

/-- The numbers in the environment are all that can fail in an empty
configuration. -/
theorem parse_blank (env : Env) (o : Order) :
    parse env o (.ok .null) = (Parser.init env).map fun p => p.seedDefaults (Dict.ofList []) := by
  rw [parse]
  cases Parser.init env with
  | error e => rfl
  | ok p =>
    have hnone : o.keys (Dict.empty : Dict Yaml) = [] := List.perm_nil.mp (o.perm [])
    change p.createInternalRepresentation o Dict.empty = _
    rw [Parser.createInternalRepresentation, hnone]
    rfl

theorem variableDefect_reported {value : Option Text} {d : Defect} (h : variableDefect value = some d) :
    d.reported = true := by
  unfold variableDefect at h
  split at h
  · contradiction
  · split at h
    · rw [← Option.some.inj h]
      rfl
    · contradiction

theorem init_valueError {e : Failure} (h : Parser.init env = .error e) : e.isValueError = true := by
  have hexplains := explains_init env
  rw [h] at hexplains
  obtain ⟨d, hd, hreported⟩ := Option.map_eq_some_iff.mp hexplains.symm
  rw [← hreported]
  unfold environmentDefect at hd
  rcases Option.or_eq_some_iff.mp hd with hd | ⟨-, hd⟩
  · exact variableDefect_reported hd
  · rcases Option.or_eq_some_iff.mp hd with hd | ⟨-, hd⟩
    · exact variableDefect_reported hd
    · exact variableDefect_reported hd

theorem generates_again (h : Generates lib env o files internal)
    (hother : actionsPath env ≠ writeLocation env) (hreads : ¬ ReadsOutput env files) (content : Text) :
    Generates lib env o (files.write (writeLocation env) content) internal := by
  rw [ReadsOutput, not_or] at hreads
  refine ⟨?_, ?_, h.actions⟩
  · rw [suppliedActions_other hother]
    exact h.supplied
  · obtain ⟨text, hlegacy⟩ := Option.ne_none_iff_exists'.mp hreads.1
    have hsource := h.source
    rw [conversionSource, hlegacy] at hsource
    rw [conversionSource, legacyText_write, if_neg hreads.2, hlegacy]
    exact hsource

theorem generates_own (h : Generates lib env o files internal)
    (hother : actionsPath env ≠ writeLocation env) (hreads : ReadsOutput env files) {content : Text}
    {d : Yaml} (hload : lib.load content = .ok d) (hd : IsActions d) {p : Parser}
    (hp : Parser.init env = .ok p) :
    Generates lib env o (files.write (writeLocation env) content) (ownInternal p) := by
  have haccept : accept env o (lib.load content) = .ok (ownInternal p) := by
    rw [hload]
    exact accept_own hd hp
  refine ⟨?_, ?_, generate_of_accept haccept⟩
  · rw [suppliedActions_other hother]
    exact h.supplied
  · rw [conversionSource, legacyText_write]
    by_cases hsame : env.legacyConfig = some (writeLocation env)
    · rw [if_pos hsame]
      exact haccept
    · rw [if_neg hsame, hreads.resolve_right hsame, Files.write_same]
      exact (accept_ok.mp haccept).1

theorem stable_generates (hhome : env.home.isSome = true) (hlib : lib.ReadsBack env o files)
    (h : Generates lib env o files internal) : RestartStable lib env o files ↔
      env.actionsFile = some (writeLocation env) ∨ env.actionsFile ≠ none ∧
        (ReadsOutput env files → ∀ p, Parser.init env = .ok p →
          retentions o internal = [(formatRegex "actions".toList, p.builtinDelete)] ∧
            defaultDelete internal = p.builtinDelete) := by
  have hused := usedActions_generates hhome h
  have hafter := (convert_generates h).2
  obtain ⟨d, hload, hd⟩ := hlib.document internal h
  rw [RestartStable]
  simp only [hused, hafter]
  by_cases hsame : actionsPath env = writeLocation env
  · -- the output is the actions file that the next run finds
    have hsupplied := @suppliedActions_output lib env files hsame _ d hload hd
    have hconvert : convert lib env o (files.write (writeLocation env)
        (lib.dump (numbered (actionsOf env o internal)))) = ⟨.ok 0, []⟩ := by
      rw [convert, hsupplied]
    rw [hconvert]
    cases hactions : env.actionsFile with
    | none =>
      have hnothing : usedActions lib env (files.write (writeLocation env)
          (lib.dump (numbered (actionsOf env o internal)))) ⟨.ok 0, []⟩ = none := by
        simp [usedActions, Run.status, curatorActions, hactions]
      rw [hnothing]
      simp
    | some path =>
      rw [actionsPath, hactions, Option.getD_some] at hsame
      have hfile : usedActions lib env (files.write (writeLocation env)
          (lib.dump (numbered (actionsOf env o internal)))) ⟨.ok 0, []⟩ =
          some (lib.load (lib.dump (numbered (actionsOf env o internal)))) := by
        simp only [usedActions, Run.status, curatorActions, hactions, Option.getD_some,
          Option.bind_some, hsame, if_neg (writeLocation_ne env), Run.after, List.foldl_nil,
          Files.write_same, Option.map_some]
      rw [hfile, hsame]
      simp
  · obtain ⟨path, hactions⟩ : ∃ path, env.actionsFile = some path := by
      cases hactions : env.actionsFile with
      | none =>
        rw [actionsPath, hactions] at hsame
        contradiction
      | some path => exact ⟨path, rfl⟩
    have hpath : env.actionsFile ≠ some (writeLocation env) := by
      intro hpath
      rw [actionsPath, hpath] at hsame
      contradiction
    have hset : env.actionsFile ≠ none := by
      rw [hactions]
      exact Option.some_ne_none path
    rw [or_iff_right hpath, and_iff_right hset]
    by_cases hreads : ReadsOutput env files
    · obtain ⟨p, hp⟩ := h.init
      rw [usedActions_generates hhome (generates_own h hsame hreads hload hd hp)]
      constructor
      · intro heq _ q hq
        rw [← Except.ok.inj (hp.symm.trans hq)]
        exact (actionsOf_eq_iff env o p internal).mp
          (hlib.injective internal p h hp (Option.some.inj heq).symm)
      · intro hretentions
        rw [(actionsOf_eq_iff env o p internal).mpr (hretentions hreads p hp)]
    · rw [usedActions_generates hhome (generates_again h hsame hreads _)]
      exact iff_of_true rfl fun hr => absurd hr hreads

theorem accept_blank {p : Parser} (hp : Parser.init env = .ok p) :
    accept env o (.ok .null) = .ok (p.seedDefaults (Dict.ofList [])) := by
  have hprojects : projects o (p.seedDefaults (Dict.ofList [])) = [(.str dotDefaults, p.defaults)] :=
    List.perm_singleton.mp ((o.perm _).filterMap _)
  rw [accept_ok, parse_blank, hp, hprojects]
  refine ⟨rfl, fun e he => ?_⟩
  rw [List.mem_singleton.mp he]
  rfl

theorem suppliedActions_blank_again (hempty : lib.load [] = .ok .null)
    (hsupplied : suppliedActions lib env files = .ok false) :
    suppliedActions lib env (files.write (writeLocation env) []) = .ok false := by
  by_cases hsame : actionsPath env = writeLocation env
  · exact suppliedActions_blank hempty hsame
  · rw [suppliedActions_other hsame]
    exact hsupplied

/-- The second run behind one that failed over a missing output: an empty file
is there now. -/
theorem stable_blank (hhome : env.home.isSome = true) (hempty : lib.load [] = .ok .null)
    (hsupplied : suppliedActions lib env files = .ok false)
    (hnone : ∀ internal, ¬ Generates lib env o files internal)
    (hlegacy : legacyText env files = none) (hmissing : files (writeLocation env) = none) :
    RestartStable lib env o files ↔
      (env.legacyConfig = some (writeLocation env) → ∃ p, Parser.init env = .ok p) := by
  have hblank : (files (writeLocation env)).getD [] = [] := by rw [hmissing, Option.getD_none]
  have hagain := suppliedActions_blank_again hempty hsupplied
  have hsource : conversionSource lib env o files = parse env o (.ok .null) := by
    rw [conversionSource, hlegacy]
    simp only [hblank, hempty]
  have hinit : ¬ ∃ p, Parser.init env = .ok p := by
    rintro ⟨p, hp⟩
    have haccept := @accept_blank env o p hp
    exact hnone _ ⟨hsupplied, hsource.trans (accept_ok.mp haccept).1, generate_of_accept haccept⟩
  obtain ⟨e, hconvert⟩ := convert_defaults_fails hsupplied hlegacy hnone
  rw [hblank] at hconvert
  have hafter : (convert lib env o files).after files = files.write (writeLocation env) [] := by
    rw [hconvert]
    rfl
  have hused : usedActions lib env files (convert lib env o files) = some (.ok .null) := by
    rw [usedActions_one hhome (by rw [hconvert]; rfl), hafter, Files.write_same, Option.map_some, hempty]
  rw [RestartStable]
  simp only [hused, hafter]
  have hlegacy' := @legacyText_write env files []
  by_cases hconfig : env.legacyConfig = some (writeLocation env)
  · rw [if_pos hconfig] at hlegacy'
    refine iff_of_false ?_ fun h => hinit (h hconfig)
    obtain ⟨e', he'⟩ : ∃ e', Parser.init env = .error e' := by
      cases hp : Parser.init env with
      | ok p => exact absurd ⟨p, hp⟩ hinit
      | error e' => exact ⟨e', rfl⟩
    have haccept : accept env o (lib.load []) = .error e' := by
      rw [hempty, accept, parse_blank, he']
      rfl
    have hsecond := convert_legacy_fails hagain hlegacy' haccept
    rw [if_pos (init_valueError he')] at hsecond
    rw [hsecond]
    intro h
    cases h
  · rw [if_neg hconfig, hlegacy] at hlegacy'
    refine iff_of_true ?_ fun h => absurd h hconfig
    have hnone' : ∀ internal, ¬ Generates lib env o (files.write (writeLocation env) []) internal := by
      intro internal h
      obtain ⟨p, hp⟩ := h.init
      exact hinit ⟨p, hp⟩
    obtain ⟨e', hsecond⟩ := convert_defaults_fails hagain hlegacy' hnone'
    rw [Files.write_same, Option.getD_some] at hsecond
    have hstatus : (convert lib env o (files.write (writeLocation env) [])).status = 1 := by
      rw [hsecond]
      rfl
    rw [usedActions_one hhome hstatus, hsecond]
    change ((files.write (writeLocation env) []).write (writeLocation env) []
      (writeLocation env)).map lib.load = _
    rw [Files.write_same, Option.map_some, hempty]

theorem stable_silent (hhome : env.home.isSome = true) (hempty : lib.load [] = .ok .null)
    (hsupplied : suppliedActions lib env files = .ok false)
    (hnone : ∀ internal, ¬ Generates lib env o files internal) :
    RestartStable lib env o files ↔ (env.legacyConfig = some (writeLocation env) →
      files (writeLocation env) = none → ∃ p, Parser.init env = .ok p) := by
  cases hlegacy : legacyText env files with
  | some text =>
    have hunchanged : (convert lib env o files).after files = files := by
      cases haccept : accept env o (lib.load text) with
      | ok internal =>
        have hsource : conversionSource lib env o files = .ok internal := by
          rw [conversionSource, hlegacy]
          exact haccept
        exact absurd ⟨hsupplied, hsource, generate_of_accept haccept⟩ (hnone internal)
      | error e =>
        rw [convert_legacy_fails hsupplied hlegacy haccept]
        split <;> rfl
    refine iff_of_true (stable_of_unchanged hunchanged) fun hconfig hmissing => ?_
    rw [legacyText, hconfig, Option.bind_some, if_neg (writeLocation_ne env), hmissing] at hlegacy
    contradiction
  | none =>
    cases houtput : files (writeLocation env) with
    | none =>
      rw [stable_blank hhome hempty hsupplied hnone hlegacy houtput]
      simp
    | some text =>
      obtain ⟨e, hconvert⟩ := convert_defaults_fails hsupplied hlegacy hnone
      have hunchanged : (convert lib env o files).after files = files := by
        rw [hconvert, houtput, Option.getD_some]
        exact Files.write_of_eq houtput
      exact iff_of_true (stable_of_unchanged hunchanged) nofun

/-- A second run uses the actions of the first one exactly when it finds them
again. -/
theorem restartStable_iff (hhome : env.home.isSome = true) (hlib : lib.ReadsBack env o files) :
    RestartStable lib env o files ↔ Restartable lib env o files := by
  by_cases hsupplied : suppliedActions lib env files = .ok false
  · by_cases hgenerates : ∃ internal, Generates lib env o files internal
    · obtain ⟨internal, h⟩ := hgenerates
      rw [stable_generates hhome hlib h]
      constructor
      · intro hstable
        refine ⟨fun internal' h' => ?_, fun _ _ _ => h.init⟩
        rw [Except.ok.inj (h'.source.symm.trans h.source)]
        exact hstable
      · intro hrestart
        exact hrestart.found internal h
    · have hnone : ∀ internal, ¬ Generates lib env o files internal := not_exists.mp hgenerates
      rw [stable_silent hhome hlib.empty hsupplied hnone]
      constructor
      · intro henvironment
        exact ⟨fun internal h => absurd h (hnone internal), fun _ => henvironment⟩
      · intro hrestart
        exact hrestart.environment hsupplied
  · have hunchanged : (convert lib env o files).after files = files := by
      rw [convert]
      cases hactions : suppliedActions lib env files with
      | error c => rfl
      | ok b =>
        cases b with
        | true => rfl
        | false => exact absurd hactions hsupplied
    refine iff_of_true (stable_of_unchanged hunchanged) ⟨fun internal h => ?_, fun h => ?_⟩
    · exact absurd h.supplied hsupplied
    · exact absurd h hsupplied

end Restart

def unitText : TimeUnit → Text
  | .days => "days".toList
  | .weeks => "weeks".toList
  | .months => "months".toList

def boolText (b : Bool) : Text := (if b then "true" else "false").toList

def timeoutText : Timeout → Text
  | .default => "300".toList
  | .given s => '\'' :: (s ++ ['\''])

def intText : Int → Text
  | .ofNat n => Nat.toDigits 10 n
  | .negSucc n => '-' :: Nat.toDigits 10 (n + 1)

def actionText (n : Nat) (a : Action) : Text :=
  [' ', ' '] ++ Nat.toDigits 10 n ++ ":\n    action: ".toList ++ a.action ++
    "\n    description: ".toList ++ a.description ++
    "\n    filters:\n    - exclude: ".toList ++ boolText a.pattern.exclude ++
    "\n      kind: ".toList ++ a.pattern.kind ++
    "\n      filtertype: pattern\n      value: '".toList ++ a.pattern.value ++
    "'\n    - direction: ".toList ++ a.age.direction ++
    "\n      filtertype: age\n      source: ".toList ++ a.age.source ++
    "\n      timestring: '".toList ++ a.age.timestring ++
    "'\n      unit_count: ".toList ++ intText a.age.unitCount ++
    "\n      unit: ".toList ++ unitText a.age.unit ++
    "\n    options:\n      continue_if_exception: ".toList ++
    boolText a.options.continueIfException ++
    "\n      timeout_override: ".toList ++ timeoutText a.options.timeoutOverride ++
    "\n      ignore_empty_list: ".toList ++ boolText a.options.ignoreEmptyList ++ ['\n']

def actionsText (actions : List (Nat × Action)) : Text :=
  "---\nactions:\n".toList ++ actions.flatMap fun a => actionText a.1 a.2

def timeoutValue : Timeout → Yaml
  | .default => .int 300
  | .given s => .str s

def patternValue (f : PatternFilter) : Yaml :=
  .map [(.str "exclude".toList, .bool f.exclude), (.str "kind".toList, .str f.kind),
    (.str "filtertype".toList, .str "pattern".toList), (.str "value".toList, .str f.value)]

def ageValue (f : AgeFilter) : Yaml :=
  .map [(.str "direction".toList, .str f.direction), (.str "filtertype".toList, .str "age".toList),
    (.str "source".toList, .str f.source), (.str "timestring".toList, .str f.timestring),
    (.str "unit_count".toList, .int f.unitCount), (.str "unit".toList, .str (unitText f.unit))]

def optionsValue (options : Options) : Yaml :=
  .map [(.str "continue_if_exception".toList, .bool options.continueIfException),
    (.str "timeout_override".toList, timeoutValue options.timeoutOverride),
    (.str "ignore_empty_list".toList, .bool options.ignoreEmptyList)]

def actionValue (a : Action) : Yaml :=
  .map [(.str "action".toList, .str a.action), (.str "description".toList, .str a.description),
    (.str "filters".toList, .seq [patternValue a.pattern, ageValue a.age]),
    (.str "options".toList, optionsValue a.options)]

def actionsDocument (actions : List (Nat × Action)) : Yaml :=
  .map [(actionsKey, .map (actions.map fun a => (.scalar (.number a.1), actionValue a.2)))]

def imageEnv : Env where
  home := some "/opt/app-root/src".toList
  legacyConfig := some "/etc/curator/settings/config.yaml".toList
  actionsFile := some "/etc/curator/settings/actions.yaml".toList

def imageParser : Parser where
  defaultCount := 31
  runhour := 0
  runminute := 0
  timezone := .str "UTC".toList

def noFiles : Files := fun _ => none

def blankInternal : Internal := imageParser.seedDefaults (Dict.ofList [])

def firstActions : List (Nat × Action) := numbered (actionsOf imageEnv .insertion blankInternal)

def secondActions : List (Nat × Action) :=
  numbered (actionsOf imageEnv .insertion (ownInternal imageParser))

def imageLibrary : YamlLibrary where
  load text :=
    if text = [] then .ok .null
    else if text = actionsText firstActions then .ok (actionsDocument firstActions)
    else if text = actionsText secondActions then .ok (actionsDocument secondActions)
    else .error .yamlError
  dump := actionsText

theorem actionsText_ne (actions : List (Nat × Action)) : actionsText actions ≠ [] :=
  List.append_ne_nil_of_left_ne_nil (List.cons_ne_nil _ _) _

theorem length_actionsText :
    (actionsText firstActions).length < (actionsText secondActions).length := by decide +kernel

theorem init_imageEnv : Parser.init imageEnv = .ok imageParser := rfl

theorem load_first :
    imageLibrary.load (imageLibrary.dump firstActions) = .ok (actionsDocument firstActions) := by
  simp only [imageLibrary, actionsText_ne, if_false, if_true]

theorem load_second :
    imageLibrary.load (imageLibrary.dump secondActions) = .ok (actionsDocument secondActions) := by
  have hother : actionsText secondActions ≠ actionsText firstActions := by
    intro h
    have hlength := length_actionsText
    rw [h] at hlength
    exact Nat.lt_irrefl _ hlength
  simp only [imageLibrary, actionsText_ne, hother, if_false, if_true]

theorem source_noFiles :
    conversionSource imageLibrary imageEnv .insertion noFiles = .ok blankInternal := by
  have hblank : parse imageEnv .insertion (.ok .null) = .ok blankInternal := by
    rw [parse_blank, init_imageEnv]
    rfl
  exact hblank

theorem generates_noFiles : Generates imageLibrary imageEnv .insertion noFiles blankInternal where
  supplied := rfl
  source := source_noFiles
  actions := generate_of_accept (accept_blank init_imageEnv)

theorem readsBack_noFiles : imageLibrary.ReadsBack imageEnv .insertion noFiles where
  empty := rfl
  document := by
    intro internal h
    rw [← Except.ok.inj (source_noFiles.symm.trans h.source)]
    refine ⟨actionsDocument firstActions, load_first, _, rfl, List.cons_ne_nil _ _, fun e he => ?_⟩
    obtain ⟨a, -, rfl⟩ := List.mem_map.mp he
    exact ⟨_, rfl⟩
  injective := by
    intro internal p h hp hload
    rw [← Except.ok.inj (source_noFiles.symm.trans h.source),
      ← Except.ok.inj (init_imageEnv.symm.trans hp)] at hload
    have hdocuments := Except.ok.inj (load_first.symm.trans (hload.trans load_second))
    have hentries := (List.cons.inj (Yaml.map.inj hdocuments)).1
    have hnumbers := Yaml.map.inj (Prod.mk.inj hentries).2
    exact absurd (congrArg List.length hnumbers) (by decide)

theorem restartStable_iff_image : RestartStable imageLibrary imageEnv .insertion noFiles ↔
    Restartable imageLibrary imageEnv .insertion noFiles :=
  restartStable_iff rfl readsBack_noFiles

/-- Without any file the first run writes the default action, and the second one
takes its file for the configuration of a project `actions`. -/
theorem not_restartStable_image : ¬ RestartStable imageLibrary imageEnv .insertion noFiles := by
  rw [stable_generates rfl readsBack_noFiles generates_noFiles]
  rintro (hsame | ⟨-, hown⟩)
  · exact absurd hsame (by decide)
  · have hretentions := (hown (.inl rfl) imageParser init_imageEnv).1
    exact absurd (congrArg List.length hretentions) (by decide)

end AggregatedLogging.Curator
