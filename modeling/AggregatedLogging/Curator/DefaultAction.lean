import AggregatedLogging.Curator.Convert

/-! The default action excludes what the explicit actions select.  Its pattern
is made of all the others, so it can only be trusted when they do not interfere
with each other. -/
namespace AggregatedLogging.Curator

open Python

theorem accept_ok {env : Env} {o : Order} {document : Except ErrorClass Yaml} {internal : Internal} :
    accept env o document = .ok internal ↔
      parse env o document = .ok internal ∧
        ∀ p ∈ projects o internal, validateProject p.1 p.2 = .ok () := by
  unfold accept validateInternalConfig
  rw [bind_ok]
  constructor
  · rintro ⟨i, hi, h⟩
    obtain ⟨u, hu, h⟩ := bind_ok.mp h
    obtain rfl := Except.ok.inj h
    exact ⟨hi, forM_ok.mp hu⟩
  · rintro ⟨hparse, hvalid⟩
    exact ⟨internal, hparse, bind_ok.mpr ⟨(), forM_ok.mpr hvalid, rfl⟩⟩

/-- The patterns of the regular expressions that get an action, in the order in
which they are joined. -/
def userPatterns (o : Order) (internal : Internal) : List Text :=
  (explicitProjects o internal).filterMap fun p => if p.2.rawRegex then some p.1 else none

def protectedPatterns : List Text := [".searchguard".toList, ".kibana".toList].map formatRegex

theorem formatRegex_prefixPattern (project : Text) :
    ∃ s, formatRegex project = Regex.prefixPattern s := by
  unfold formatRegex
  split
  · exact ⟨_, rfl⟩
  · split <;> exact ⟨_, rfl⟩

theorem formatRegex_inert (project : Text) : Regex.Inert (formatRegex project) := by
  obtain ⟨s, hs⟩ := formatRegex_prefixPattern project
  rw [hs]
  exact Regex.prefixPattern_inert s

theorem excludedPatterns_diluted (o : Order) (internal : Internal) :
    Regex.Diluted (userPatterns o internal) (excludedPatterns o internal) := by
  have hprojects (l : List (Text × Project)) :
      Regex.Diluted (l.filterMap fun p => if p.2.rawRegex then some p.1 else none)
        (l.map fun p => projectRegex p.1 p.2) := by
    induction l with
    | nil => exact .nil
    | cons p l ih =>
      rw [List.filterMap_cons, List.map_cons, projectRegex]
      cases p.2.rawRegex with
      | true => exact .keep p.1 ih
      | false => exact .inert (formatRegex_inert p.1) ih
  have hprotected : Regex.Diluted [] protectedPatterns := by
    refine Regex.Diluted.of_inert fun p hp => ?_
    obtain ⟨name, -, rfl⟩ := List.mem_map.mp hp
    exact formatRegex_inert name
  have := (hprojects (explicitProjects o internal)).append hprotected
  rwa [List.append_nil] at this

theorem mem_projects {o : Order} {internal : Internal} {k : Key} {proj : Project} :
    (k, proj) ∈ projects o internal ↔ internal.get? k = some proj := by
  simp only [projects, List.mem_filterMap, Option.map_eq_some_iff, Prod.mk.injEq, Order.mem_keys]
  constructor
  · rintro ⟨j, -, q, hq, rfl, rfl⟩
    exact hq
  · intro h
    exact ⟨k, by rw [h, Option.isSome_some], proj, h, rfl, rfl⟩

theorem mem_actionEntries {o : Order} {internal : Internal} {k : Key} {proj : Project} :
    (k, proj) ∈ actionEntries o internal ↔
      internal.get? k = some proj ∧ k ≠ .str dotDefaults ∧ k ≠ .str dotRegex := by
  rw [actionEntries, List.mem_filter, mem_projects, decide_eq_true_eq]

theorem mem_explicitProjects {o : Order} {internal : Internal} {name : Text} {proj : Project} :
    (name, proj) ∈ explicitProjects o internal ↔
      internal.get? (.str name) = some proj ∧ name ≠ dotDefaults ∧ name ≠ dotRegex := by
  rw [explicitProjects, List.mem_filterMap, ← Key.str_inj.ne, ← Key.str_inj.ne,
    ← mem_actionEntries (o := o)]
  constructor
  · rintro ⟨⟨k, q⟩, hmem, h⟩
    obtain ⟨n, hn, h⟩ := Option.map_eq_some_iff.mp h
    obtain rfl := Key.text?_eq_some.mp hn
    obtain ⟨rfl, rfl⟩ := Prod.mk.inj h
    exact hmem
  · intro hmem
    exact ⟨(.str name, proj), hmem, rfl⟩

theorem text_of_valid {k : Key} {proj : Project} (h : validateProject k proj = .ok ()) :
    k.text?.isSome = true := by
  unfold validateProject at h
  split at h
  · cases hk : k.text? with
    | some s => rfl
    | none => simp [hk] at h
  · split at h
    · rfl
    · split at h <;> contradiction
    · contradiction

theorem generate_of_accept {env : Env} {o : Order} {document : Except ErrorClass Yaml}
    {internal : Internal} (h : accept env o document = .ok internal) :
    generate env o internal =
      .ok (explicitActions env o internal ++ [generateDefaults env o internal]) := by
  refine bind_ok.mpr ⟨(), forM_ok.mpr fun p hp => ?_, rfl⟩
  have hmem : p ∈ projects o internal := mem_projects.mpr (mem_actionEntries.mp hp).1
  rw [if_pos (text_of_valid ((accept_ok.mp h).2 _ hmem))]

theorem mem_userPatterns {o : Order} {internal : Internal} {p : Text} :
    p ∈ userPatterns o internal ↔
      ∃ proj, (p, proj) ∈ explicitProjects o internal ∧ proj.rawRegex = true := by
  rw [userPatterns, List.mem_filterMap]
  constructor
  · rintro ⟨⟨name, proj⟩, hmem, h⟩
    split at h
    · rename_i hraw
      obtain rfl := Option.some.inj h
      exact ⟨proj, hmem, hraw⟩
    · contradiction
  · rintro ⟨proj, hmem, hraw⟩
    exact ⟨(p, proj), hmem, by rw [hraw]; rfl⟩

theorem userPatterns_compile {env : Env} {o : Order} {document : Except ErrorClass Yaml}
    {internal : Internal} (h : accept env o document = .ok internal) {p : Text}
    (hp : p ∈ userPatterns o internal) : (Regex.compile .python p).isSome = true := by
  obtain ⟨proj, hmem, hraw⟩ := mem_userPatterns.mp hp
  have hvalid := (accept_ok.mp h).2 (.str p, proj) (mem_projects.mpr (mem_explicitProjects.mp hmem).1)
  by_contra hnone
  simp [validateProject, hraw, hnone] at hvalid

/-- The pattern of the default action finds exactly what the patterns of the
explicit actions and the protected patterns find. -/
def DefaultAgrees (env : Env) (o : Order) (internal : Internal) : Prop :=
  let default := (generateDefaults env o internal).pattern.value
  (Regex.compile .python default).isSome = true ∧
    ∀ index, Regex.matchesText default index = true ↔
      (∃ a ∈ explicitActions env o internal, Regex.matchesText a.pattern.value index = true) ∨
        ∃ p ∈ protectedPatterns, Regex.matchesText p index = true

theorem defaultAgrees_of_joinable {env : Env} {o : Order} {internal : Internal}
    (hjoinable : Regex.Joinable (excludedPatterns o internal))
    (hnames : ((excludedPatterns o internal).flatMap Regex.groupNames).Nodup)
    (hlimit : ((excludedPatterns o internal).map Regex.groupCount).sum ≤ 99) :
    DefaultAgrees env o internal := by
  have hne : excludedPatterns o internal ≠ [] := by simp [excludedPatterns]
  refine ⟨(Regex.compile_join_iff hjoinable hne).mpr ⟨hnames, hlimit⟩, fun index => ?_⟩
  change Regex.matchesText (Text.join ['|'] (excludedPatterns o internal)) index = true ↔ _
  rw [Regex.matchesText_join hjoinable hne hnames hlimit index, List.any_eq_true]
  constructor
  · rintro ⟨p, hp, hmatch⟩
    rcases List.mem_append.mp hp with hp | hp
    · obtain ⟨q, hq, rfl⟩ := List.mem_map.mp hp
      exact .inl ⟨_, List.mem_map_of_mem hq, hmatch⟩
    · exact .inr ⟨p, hp, hmatch⟩
  · rintro (⟨a, ha, hmatch⟩ | ⟨p, hp, hmatch⟩)
    · obtain ⟨q, hq, rfl⟩ := List.mem_map.mp ha
      exact ⟨_, List.mem_append_left _ (List.mem_map_of_mem hq), hmatch⟩
    · exact ⟨p, List.mem_append_right _ hp, hmatch⟩

/-- Without inline flags and references by number, names and numbers of groups
decide. -/
theorem default_agrees_iff {env : Env} {o : Order} {document : Except ErrorClass Yaml}
    {internal : Internal} (haccept : accept env o document = .ok internal)
    (hflags : ∀ p ∈ userPatterns o internal, Regex.setsFlags p = false)
    (hnumbers : (userPatterns o internal).Pairwise fun p q =>
      Regex.groupCount p = 0 ∨ Regex.usesNumbers q = false) :
    DefaultAgrees env o internal ↔
      ((userPatterns o internal).flatMap Regex.groupNames).Nodup ∧
        ((userPatterns o internal).map Regex.groupCount).sum ≤ 99 := by
  have hdiluted := excludedPatterns_diluted o internal
  have hjoinable := hdiluted.joinable
    ⟨fun p hp => userPatterns_compile haccept hp, hflags, hnumbers⟩
  have hne : excludedPatterns o internal ≠ [] := by simp [excludedPatterns]
  rw [← hdiluted.groupNames, ← hdiluted.groupCount]
  constructor
  · intro hagrees
    exact (Regex.compile_join_iff hjoinable hne).mp hagrees.1
  · intro h
    exact defaultAgrees_of_joinable hjoinable h.1 h.2

def regexDocument (patterns : List Text) : Yaml :=
  .map [(.str dotRegex, .seq (patterns.map fun p => .map
    [(.str "pattern".toList, .str p), (.str "delete".toList, .map [(.str "days".toList, .int 1)])]))]

def plainParser : Parser where
  defaultCount := 31
  runhour := 0
  runminute := 0
  timezone := .str "UTC".toList

def regexInternal (patterns : List Text) : Internal :=
  plainParser.seedDefaults (.ofList (patterns.map fun p => (.str p, ⟨true, ⟨.days, 1⟩, none⟩)))

theorem default_agrees_named_groups :
    DefaultAgrees {} .insertion (regexInternal ["(?P<a>a)".toList, "(?P<b>b)(?P=b)".toList]) :=
  have haccept : accept {} .insertion
      (.ok (regexDocument ["(?P<a>a)".toList, "(?P<b>b)(?P=b)".toList])) =
        .ok (regexInternal ["(?P<a>a)".toList, "(?P<b>b)(?P=b)".toList]) := rfl
  (default_agrees_iff haccept (by decide +kernel) (by decide +kernel)).mpr (by decide +kernel)

/-- Behind a pattern with a group, a reference by number means another group:
the index `bb` has a rule of its own and is deleted by the default rule too. -/
theorem default_misses_reference :
    accept {} .insertion (.ok (regexDocument ["(a)\\1".toList, "(b)\\1".toList])) =
        .ok (regexInternal ["(a)\\1".toList, "(b)\\1".toList]) ∧
      ¬ DefaultAgrees {} .insertion (regexInternal ["(a)\\1".toList, "(b)\\1".toList]) := by
  refine ⟨rfl, fun hagrees => ?_⟩
  have hexplicit : ∃ a ∈ explicitActions {} .insertion
      (regexInternal ["(a)\\1".toList, "(b)\\1".toList]),
      Regex.matchesText a.pattern.value "bb".toList = true := by decide +kernel
  have hdefault : Regex.matchesText (generateDefaults {} .insertion
      (regexInternal ["(a)\\1".toList, "(b)\\1".toList])).pattern.value "bb".toList = false := by
    decide +kernel
  have hmatches := (hagrees.2 "bb".toList).mpr (.inl hexplicit)
  rw [hdefault] at hmatches
  exact Bool.false_ne_true hmatches

end AggregatedLogging.Curator
