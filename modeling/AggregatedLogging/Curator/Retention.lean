import AggregatedLogging.Curator.DefaultAction
import AggregatedLogging.Curator.Names

/-! Which action an index name falls to, and with which retention. -/
namespace AggregatedLogging.Curator

open Python

variable {env : Env} {o : Order} {p : Parser} {config : Dict Yaml} {internal : Internal}

theorem parse_ok {document : Yaml} :
    parse env o (.ok document) = .ok internal ↔ ∃ p config, Parser.init env = .ok p ∧
      Parser.configOf document = .ok config ∧
        p.createInternalRepresentation o config = .ok internal := by
  unfold parse
  simp only [bind_ok]
  constructor
  · rintro ⟨p, hp, d, hd, config, hconfig, h⟩
    obtain rfl := Except.ok.inj hd
    exact ⟨p, config, hp, hconfig, h⟩
  · rintro ⟨p, config, hp, hconfig, h⟩
    exact ⟨p, hp, document, rfl, config, hconfig, h⟩

/-- An entry of the internal configuration that comes from a project of the
legacy configuration. -/
structure FromProject (p : Parser) (o : Order) (config : Dict Yaml) (project : Key)
    (proj : Project) : Prop where
  notRaw : proj.rawRegex = false
  delete : ∃ node fields, config.get? project = some node ∧ node.dict? = some fields ∧
    p.unitCount o (Parser.deleteNode fields) = .ok proj.delete

theorem projectEntry_ok {project : Key} {node : Yaml} {entry : Key × Project}
    (hnode : config.get? project = some node) (h : p.projectEntry o project node = .ok entry) :
    entry.1 = project ∧ FromProject p o config project entry.2 := by
  unfold Parser.projectEntry at h
  split at h
  · contradiction
  · rename_i fields hfields
    obtain ⟨delete, hdelete, h⟩ := bind_ok.mp h
    split at h
    · obtain ⟨schedule, -, h⟩ := bind_ok.mp h
      obtain rfl := Except.ok.inj h
      exact ⟨rfl, rfl, node, fields, hnode, hfields, hdelete⟩
    · obtain rfl := Except.ok.inj h
      exact ⟨rfl, rfl, node, fields, hnode, hfields, hdelete⟩

theorem assignments_ok {project : Key} {entries : List (Key × Project)}
    (hproject : project ≠ .str dotRegex) (hmem : (config.get? project).isSome = true)
    (h : p.assignments o config project = .ok entries) :
    ∃ proj, entries = [(project, proj)] ∧ FromProject p o config project proj := by
  obtain ⟨node, hnode⟩ := Option.isSome_iff_exists.mp hmem
  unfold Parser.assignments at h
  simp only [hnode, Option.getD_some] at h
  split at h
  · contradiction
  · obtain ⟨entry, hentry, hentries⟩ := bind_ok.mp h
    obtain ⟨rfl, hfrom⟩ := projectEntry_ok hnode hentry
    exact ⟨entry.2, (Except.ok.inj hentries).symm, hfrom⟩

theorem seedDefaults_get? (internal : Internal) (k : Key) :
    (p.seedDefaults internal).get? k =
      if k = .str dotDefaults then some ((internal.get? k).getD p.defaults) else internal.get? k := by
  unfold Parser.seedDefaults Dict.contains
  by_cases hk : k = .str dotDefaults
  · subst hk
    cases h : internal.get? (.str dotDefaults) with
    | none => simp [Dict.get?_insert]
    | some proj => simp [h]
  · cases h : internal.get? (.str dotDefaults) with
    | none => simp [Dict.get?_insert, hk]
    | some proj => simp [hk]

theorem assigned_ok {ks : List Key} {assigned : List (List (Key × Project))}
    (hks : ∀ k ∈ ks, k ≠ .str dotRegex ∧ (config.get? k).isSome = true)
    (h : List.Forall₂ (fun k entries => p.assignments o config k = .ok entries) ks assigned) :
    assigned.flatten.map Prod.fst = ks ∧
      ∀ q ∈ assigned.flatten, FromProject p o config q.1 q.2 := by
  induction h with
  | nil => exact ⟨rfl, List.forall_mem_nil _⟩
  | cons hk h ih =>
    rw [List.forall_mem_cons] at hks
    obtain ⟨hkeys, hfrom⟩ := ih hks.2
    obtain ⟨proj, rfl, hproj⟩ := assignments_ok hks.1.1 hks.1.2 hk
    rw [List.flatten_cons, List.singleton_append, List.map_cons, hkeys]
    exact ⟨rfl, List.forall_mem_cons.mpr ⟨hproj, hfrom⟩⟩

theorem keys_ok (hregex : config.get? (.str dotRegex) = none) :
    ∀ k ∈ o.keys config, k ≠ .str dotRegex ∧ (config.get? k).isSome = true := by
  intro k hk
  rw [Order.mem_keys] at hk
  refine ⟨?_, hk⟩
  rintro rfl
  rw [hregex] at hk
  contradiction

/-- The parser's result for a configuration without regular expressions: an
entry for each project, and the defaults. -/
theorem createInternalRepresentation_get? (hregex : config.get? (.str dotRegex) = none)
    (h : p.createInternalRepresentation o config = .ok internal) {k : Key} {proj : Project}
    (hproj : internal.get? k = some proj) :
    (config.get? k).isSome = true ∧ FromProject p o config k proj ∨
      config.get? k = none ∧ k = .str dotDefaults ∧ proj = p.defaults := by
  obtain ⟨assigned, hassigned, h⟩ := bind_ok.mp h
  obtain rfl := Except.ok.inj h
  have hks := keys_ok (o := o) hregex
  obtain ⟨hkeys, hfrom⟩ := assigned_ok hks (mapM_ok.mp hassigned)
  have hnodup : (assigned.flatten.map Prod.fst).Nodup := hkeys ▸ o.keys_nodup config
  rw [seedDefaults_get?] at hproj
  cases hk : (Dict.ofList assigned.flatten).get? k with
  | some q =>
    have hq : q = proj := by
      rw [hk] at hproj
      split at hproj <;> simpa using hproj
    subst hq
    have hmem := (Dict.get?_ofList_eq_some hnodup).mp hk
    have hin : k ∈ o.keys config := hkeys ▸ List.mem_map_of_mem (f := Prod.fst) hmem
    exact .inl ⟨(hks k hin).2, hfrom _ hmem⟩
  | none =>
    rw [hk] at hproj
    split at hproj
    · rename_i hdefaults
      refine .inr ⟨?_, hdefaults, (by simpa using hproj.symm)⟩
      by_contra hsome
      have hin : k ∈ o.keys config := Order.mem_keys.mpr (Option.isSome_iff_ne_none.mpr hsome)
      rw [← hkeys] at hin
      obtain ⟨q, hq, hqk⟩ := List.mem_map.mp hin
      subst hqk
      have hsome := (Dict.get?_ofList_eq_some hnodup).mpr hq
      rw [hk] at hsome
      contradiction
    · contradiction

theorem exists_internal (hregex : config.get? (.str dotRegex) = none)
    (h : p.createInternalRepresentation o config = .ok internal) {k : Key}
    (hk : (config.get? k).isSome = true) : ∃ proj, internal.get? k = some proj := by
  obtain ⟨assigned, hassigned, h⟩ := bind_ok.mp h
  obtain rfl := Except.ok.inj h
  obtain ⟨hkeys, -⟩ := assigned_ok (keys_ok hregex) (mapM_ok.mp hassigned)
  have hnodup : (assigned.flatten.map Prod.fst).Nodup := hkeys ▸ o.keys_nodup config
  have hin : k ∈ assigned.flatten.map Prod.fst := hkeys ▸ Order.mem_keys.mpr hk
  obtain ⟨q, hq, rfl⟩ := List.mem_map.mp hin
  have hget := (Dict.get?_ofList_eq_some hnodup).mpr hq
  rw [seedDefaults_get?, hget]
  split
  · exact ⟨_, rfl⟩
  · exact ⟨_, rfl⟩

theorem internal_defaults (h : p.createInternalRepresentation o config = .ok internal) :
    ∃ proj, internal.get? (.str dotDefaults) = some proj := by
  obtain ⟨assigned, -, h⟩ := bind_ok.mp h
  obtain rfl := Except.ok.inj h
  exact ⟨_, by rw [seedDefaults_get?, if_pos rfl]⟩

/-- A delete node states a retention: the one of a unit in it, weeks counted in
days. -/
def States (delete : Yaml) (retention : Delete) : Prop :=
  ∃ units key unit v n, delete.dict? = some units ∧ units.get? key = some v ∧
    allowedUnit key = some unit ∧ v.toInt = .ok n ∧ retention = unit.convert n

def Retains (p : Parser) (delete : Yaml) (retention : Delete) : Prop :=
  States delete retention ∨
    (∃ units, delete.dict? = some units ∧ units.inserted = []) ∧
      retention = ⟨p.defaultTimeUnit, p.defaultCount⟩

theorem unitCount_ok {node : Yaml} {retention : Delete} (h : p.unitCount o node = .ok retention) :
    Retains p node retention := by
  unfold Parser.unitCount at h
  split at h
  · contradiction
  · split at h
    · contradiction
    · rename_i units hunits
      obtain ⟨-, ⟨hnil, rfl⟩ | ⟨key, hkey, hstep⟩⟩ := foldlM_ok h
      · have hempty := (o.perm units.inserted).symm
        rw [show o.arrange units.inserted = [] from hnil, List.perm_nil] at hempty
        exact .inr ⟨⟨units, hunits, hempty⟩, rfl⟩
      · obtain ⟨v, hv⟩ := Option.isSome_iff_exists.mp (Order.mem_keys.mp hkey)
        unfold unitStep at hstep
        split at hstep
        · contradiction
        · rename_i unit hunit
          obtain ⟨n, hn, rfl⟩ := map_ok.mp hstep
          rw [hv, Option.getD_some] at hn
          exact .inl ⟨units, key, unit, v, n, hunits, hv, hunit, builtin_ok.mp hn, rfl⟩

def Action.matches (a : Action) (index : Text) : Prop :=
  Regex.matchesText a.pattern.value index = true

def protectedPrefixes : List Text := [".searchguard.".toList, ".kibana".toList]

/-- The index falls to one explicit action, with the retention of its project;
`R` says which retentions a delete node has. -/
def ByProject (R : Yaml → Delete → Prop) (env : Env) (o : Order) (config : Dict Yaml)
    (internal : Internal) (index : Text) : Prop :=
  ∃ (i : Nat) (a : Action) (project : Text) (node : Yaml) (fields : Dict Yaml),
    (explicitActions env o internal)[i]? = some a ∧
    project ≠ dotDefaults ∧ config.get? (.str project) = some node ∧ node.dict? = some fields ∧
    a.pattern.value = formatRegex project ∧ R (Parser.deleteNode fields) a.retention ∧
    a.matches index ∧
    (∀ (j : Nat) (b : Action), (explicitActions env o internal)[j]? = some b →
      b.matches index → j = i) ∧
    (generateDefaults env o internal).selects index = false

def Untouched (env : Env) (o : Order) (internal : Internal) (index : Text) : Prop :=
  (∀ a ∈ explicitActions env o internal, ¬ a.matches index) ∧
    (∃ s ∈ protectedPrefixes, s <+: index) ∧
    ∀ a ∈ explicitActions env o internal ++ [generateDefaults env o internal],
      a.selects index = false

def ByDefault (R : Yaml → Delete → Prop) (env : Env) (o : Order) (p : Parser) (config : Dict Yaml)
    (internal : Internal) (index : Text) : Prop :=
  (∀ a ∈ explicitActions env o internal, a.selects index = false) ∧
    (generateDefaults env o internal).selects index = true ∧
    match config.get? (.str dotDefaults) with
    | none =>
      (generateDefaults env o internal).retention = ⟨p.defaultTimeUnit, p.defaultCount⟩
    | some node => ∃ fields, node.dict? = some fields ∧
        R (Parser.deleteNode fields) (generateDefaults env o internal).retention

def ExactlyOne (a b c : Prop) : Prop := (a ∧ ¬ b ∧ ¬ c) ∨ (¬ a ∧ b ∧ ¬ c) ∨ (¬ a ∧ ¬ b ∧ c)

theorem explicit_project {document : Yaml} (hinit : Parser.init env = .ok p)
    (hconfig : Parser.configOf document = .ok config) (hregex : config.get? (.str dotRegex) = none)
    (haccept : accept env o (.ok document) = .ok internal) {name : Text} {proj : Project}
    (h : (name, proj) ∈ explicitProjects o internal) :
    ValidName name ∧ FromProject p o config (.str name) proj := by
  obtain ⟨hparse, hvalid⟩ := accept_ok.mp haccept
  obtain ⟨p', config', hinit', hconfig', hcreate⟩ := parse_ok.mp hparse
  obtain rfl := Except.ok.inj (hinit.symm.trans hinit')
  obtain rfl := Except.ok.inj (hconfig.symm.trans hconfig')
  obtain ⟨hget, hdefaults, -⟩ := mem_explicitProjects.mp h
  have hfrom : FromProject p o config (.str name) proj := by
    rcases createInternalRepresentation_get? hregex hcreate hget with ⟨-, hfrom⟩ | ⟨-, hkey, -⟩
    · exact hfrom
    · exact absurd (Key.str_inj.mp hkey) hdefaults
  have hname := hvalid _ (mem_projects.mpr hget)
  refine ⟨?_, hfrom⟩
  by_contra hinvalid
  rw [ValidName, not_or] at hinvalid
  simp only [validateProject, hfrom.notRaw, Key.str, Bool.false_eq_true, ↓reduceIte,
    hinvalid.1, hinvalid.2] at hname
  split at hname <;> contradiction

theorem explicitProjects_nodup (o : Order) (internal : Internal) :
    (explicitProjects o internal).Nodup := by
  have hprojects : (projects o internal).Nodup := by
    refine List.Nodup.filterMap ?_ (o.keys_nodup internal)
    intro k k' q hq hq'
    obtain ⟨_, -, rfl⟩ := Option.map_eq_some_iff.mp hq
    obtain ⟨_, -, h⟩ := Option.map_eq_some_iff.mp hq'
    exact (Prod.mk.inj h).1.symm
  refine List.Nodup.filterMap ?_ (hprojects.filter _)
  intro q q' r hr hr'
  obtain ⟨n, hn, rfl⟩ := Option.map_eq_some_iff.mp hr
  obtain ⟨n', hn', h⟩ := Option.map_eq_some_iff.mp hr'
  obtain ⟨rfl, hproj⟩ := Prod.mk.inj h
  exact Prod.ext ((Key.text?_eq_some.mp hn).trans (Key.text?_eq_some.mp hn').symm) hproj.symm

theorem mem_explicitActions {a : Action} (h : a ∈ explicitActions env o internal) :
    ∃ name proj, (name, proj) ∈ explicitProjects o internal ∧
      a = generateAction env proj.delete (projectRegex name proj) false := by
  obtain ⟨q, hq, rfl⟩ := List.mem_map.mp h
  exact ⟨q.1, q.2, hq, rfl⟩

theorem explicit_selects {a : Action} (h : a ∈ explicitActions env o internal) (index : Text) :
    a.selects index = true ↔ a.matches index := by
  obtain ⟨name, proj, -, rfl⟩ := mem_explicitActions h
  simp only [Action.selects, PatternFilter.keeps, Action.matches, generateAction_exclude,
    Bool.false_bne]

theorem protected_matches {index : Text} (hline : '\n' ∉ index) :
    (∃ p ∈ protectedPatterns, Regex.matchesText p index = true) ↔
      ∃ s ∈ protectedPrefixes, s <+: index := by
  have hprefixes : protectedPrefixes = [".searchguard".toList, ".kibana".toList].map indexPrefix := by
    decide
  rw [hprefixes, protectedPatterns]
  simp only [List.mem_map, exists_exists_and_eq_and, formatRegex_matches _ _ hline]

theorem default_selects {document : Yaml} {index : Text} (hinit : Parser.init env = .ok p)
    (hconfig : Parser.configOf document = .ok config) (hregex : config.get? (.str dotRegex) = none)
    (haccept : accept env o (.ok document) = .ok internal) (hline : '\n' ∉ index) :
    (generateDefaults env o internal).selects index = true ↔
      (∀ a ∈ explicitActions env o internal, ¬ a.matches index) ∧
        ¬ ∃ s ∈ protectedPrefixes, s <+: index := by
  have huser : userPatterns o internal = [] := by
    rw [List.eq_nil_iff_forall_not_mem]
    intro name hname
    obtain ⟨proj, hmem, hraw⟩ := mem_userPatterns.mp hname
    have := (explicit_project hinit hconfig hregex haccept hmem).2.notRaw
    rw [hraw] at this
    contradiction
  have hdiluted := excludedPatterns_diluted o internal
  rw [huser] at hdiluted
  have hjoinable := hdiluted.joinable ⟨List.forall_mem_nil _, List.forall_mem_nil _, .nil⟩
  have hagrees : DefaultAgrees env o internal :=
    defaultAgrees_of_joinable hjoinable (by rw [hdiluted.groupNames]; exact .nil)
      (by rw [hdiluted.groupCount]; exact Nat.zero_le _)
  have hmatch := hagrees.2 index
  rw [protected_matches hline] at hmatch
  have hexclude : (generateDefaults env o internal).selects index =
      !Regex.matchesText (generateDefaults env o internal).pattern.value index := by
    simp only [Action.selects, PatternFilter.keeps, generateDefaults, generateAction_exclude,
      Bool.true_bne]
  rw [hexclude, Bool.not_eq_true', ← Bool.not_eq_true, hmatch, not_or]
  refine and_congr_left fun _ => ?_
  simp only [not_exists, not_and, Action.matches]

theorem explicit_unique {document : Yaml} {index : Text} (hinit : Parser.init env = .ok p)
    (hconfig : Parser.configOf document = .ok config) (hregex : config.get? (.str dotRegex) = none)
    (haccept : accept env o (.ok document) = .ok internal) (hline : '\n' ∉ index)
    {i j : Nat} {a b : Action} (hi : (explicitActions env o internal)[i]? = some a)
    (hj : (explicitActions env o internal)[j]? = some b) (ha : a.matches index)
    (hb : b.matches index) : j = i := by
  rw [explicitActions, List.getElem?_map] at hi hj
  obtain ⟨⟨m, q⟩, hq, rfl⟩ := Option.map_eq_some_iff.mp hi
  obtain ⟨⟨n, r⟩, hr, rfl⟩ := Option.map_eq_some_iff.mp hj
  obtain ⟨hm, hfromm⟩ := explicit_project hinit hconfig hregex haccept (List.mem_of_getElem? hq)
  obtain ⟨hn, hfromn⟩ := explicit_project hinit hconfig hregex haccept (List.mem_of_getElem? hr)
  simp only [Action.matches, generateAction_value, projectRegex, hfromm.notRaw, hfromn.notRaw,
    Bool.false_eq_true, ↓reduceIte, formatRegex_matches _ _ hline] at ha hb
  obtain rfl := eq_of_indexPrefix hm hn ha hb
  have hgetm := (mem_explicitProjects.mp (List.mem_of_getElem? hq)).1
  have hgetn := (mem_explicitProjects.mp (List.mem_of_getElem? hr)).1
  obtain rfl := Option.some.inj (hgetm.symm.trans hgetn)
  have hlen : j < (explicitProjects o internal).length := (List.getElem?_eq_some_iff.mp hr).1
  exact (List.getElem?_inj hlen (explicitProjects_nodup o internal)).mp (hr.trans hq.symm)

theorem default_retention {document : Yaml} (hinit : Parser.init env = .ok p)
    (hconfig : Parser.configOf document = .ok config) (hregex : config.get? (.str dotRegex) = none)
    (haccept : accept env o (.ok document) = .ok internal) :
    match config.get? (.str dotDefaults) with
    | none =>
      (generateDefaults env o internal).retention = ⟨p.defaultTimeUnit, p.defaultCount⟩
    | some node => ∃ fields, node.dict? = some fields ∧
        Retains p (Parser.deleteNode fields) (generateDefaults env o internal).retention := by
  obtain ⟨p', config', hinit', hconfig', hcreate⟩ := parse_ok.mp (accept_ok.mp haccept).1
  obtain rfl := Except.ok.inj (hinit.symm.trans hinit')
  obtain rfl := Except.ok.inj (hconfig.symm.trans hconfig')
  obtain ⟨proj, hproj⟩ := internal_defaults hcreate
  have hretention : (generateDefaults env o internal).retention = proj.delete := by
    rw [generateDefaults, generateAction_retention, defaultDelete, hproj, Option.map_some,
      Option.getD_some]
  rw [hretention]
  rcases createInternalRepresentation_get? hregex hcreate hproj with ⟨hsome, hfrom⟩ | ⟨hnone, -, rfl⟩
  · obtain ⟨node, fields, hnode, hfields, hdelete⟩ := hfrom.delete
    rw [hnode]
    exact ⟨fields, hfields, unitCount_ok hdelete⟩
  · rw [hnone]
    rfl

theorem retention_partition {document : Yaml} {index : Text} (hinit : Parser.init env = .ok p)
    (hconfig : Parser.configOf document = .ok config) (hregex : config.get? (.str dotRegex) = none)
    (haccept : accept env o (.ok document) = .ok internal) (hline : '\n' ∉ index) :
    generate env o internal =
        .ok (explicitActions env o internal ++ [generateDefaults env o internal]) ∧
      ExactlyOne (ByProject (Retains p) env o config internal index)
        (Untouched env o internal index) (ByDefault (Retains p) env o p config internal index) := by
  refine ⟨generate_of_accept haccept, ?_⟩
  have hselects := default_selects hinit hconfig hregex haccept hline
  by_cases hmatch : ∃ a ∈ explicitActions env o internal, a.matches index
  · obtain ⟨a, hmem, ha⟩ := hmatch
    have hnotdefault : (generateDefaults env o internal).selects index = false := by
      rw [← Bool.not_eq_true, hselects]
      exact fun h => h.1 a hmem ha
    refine .inl ⟨?_, fun h => h.1 a hmem ha, fun h => ?_⟩
    · obtain ⟨i, hi⟩ := List.getElem?_of_mem hmem
      have hi' := hi
      rw [explicitActions, List.getElem?_map] at hi'
      obtain ⟨⟨name, proj⟩, hq, rfl⟩ := Option.map_eq_some_iff.mp hi'
      have hproject := List.mem_of_getElem? hq
      have hfrom := (explicit_project hinit hconfig hregex haccept hproject).2
      obtain ⟨node, fields, hnode, hfields, hdelete⟩ := hfrom.delete
      refine ⟨i, _, name, node, fields, hi, (mem_explicitProjects.mp hproject).2.1, hnode, hfields,
        ?_, unitCount_ok hdelete, ha, ?_, hnotdefault⟩
      · rw [generateAction_value, projectRegex, hfrom.notRaw]
        rfl
      · exact fun j b hj hb => explicit_unique hinit hconfig hregex haccept hline hi hj ha hb
    · rw [h.2.1] at hnotdefault
      contradiction
  · have hnone : ∀ a ∈ explicitActions env o internal, ¬ a.matches index :=
      fun a hmem ha => hmatch ⟨a, hmem, ha⟩
    have hnotproject : ¬ ByProject (Retains p) env o config internal index := by
      rintro ⟨i, a, -, -, -, hi, -, -, -, -, -, ha, -⟩
      exact hnone a (List.mem_of_getElem? hi) ha
    have hunselected : ∀ a ∈ explicitActions env o internal, a.selects index = false := by
      intro a hmem
      rw [← Bool.not_eq_true, explicit_selects hmem]
      exact hnone a hmem
    by_cases hprotected : ∃ s ∈ protectedPrefixes, s <+: index
    · have hnotdefault : (generateDefaults env o internal).selects index = false := by
        rw [← Bool.not_eq_true, hselects]
        exact fun h => h.2 hprotected
      refine .inr (.inl ⟨hnotproject, ⟨hnone, hprotected, fun a hmem => ?_⟩, fun h => ?_⟩)
      · rcases List.mem_append.mp hmem with hmem | hmem
        · exact hunselected a hmem
        · rw [List.mem_singleton.mp hmem, hnotdefault]
      · rw [h.2.1] at hnotdefault
        contradiction
    · exact .inr (.inr ⟨hnotproject, fun h => hprotected h.2.1, hunselected,
        hselects.mpr ⟨hnone, hprotected⟩, default_retention hinit hconfig hregex haccept⟩)

def NamesUnit (delete : Yaml) : Prop := ∃ units, delete.dict? = some units ∧ units.inserted ≠ []

theorem States.namesUnit {delete : Yaml} {retention : Delete} (h : States delete retention) :
    NamesUnit delete := by
  obtain ⟨units, key, unit, v, n, hunits, hv, -⟩ := h
  have hkey : key ∈ units.inserted := Dict.mem_inserted.mpr (by rw [hv]; rfl)
  exact ⟨units, hunits, List.ne_nil_of_mem hkey⟩

theorem Retains.states {delete : Yaml} {retention : Delete} (h : Retains p delete retention)
    (hunit : NamesUnit delete) : States delete retention := by
  rcases h with h | ⟨⟨units, hunits, hnil⟩, -⟩
  · exact h
  · obtain ⟨units', hunits', hne⟩ := hunit
    obtain rfl := Option.some.inj (hunits.symm.trans hunits')
    exact absurd hnil hne

/-- Every entry names a unit in its delete node, also that of the defaults.  No index falls to
an entry with a line break in its name. -/
def RetentionStated (config : Dict Yaml) : Prop :=
  ∀ name node fields, '\n' ∉ name → config.get? (.str name) = some node →
    node.dict? = some fields → NamesUnit (Parser.deleteNode fields)

/-- Every index falls to exactly one rule, with the retention that the rule's entry states. -/
def Partitioned (env : Env) (o : Order) (p : Parser) (config : Dict Yaml) (internal : Internal) :
    Prop :=
  generate env o internal =
      .ok (explicitActions env o internal ++ [generateDefaults env o internal]) ∧
    ∀ index, '\n' ∉ index → ExactlyOne (ByProject States env o config internal index)
      (Untouched env o internal index) (ByDefault States env o p config internal index)

theorem indexPrefix_ne_nil (project : Text) : indexPrefix project ≠ [] := by
  unfold indexPrefix
  split
  · rename_i hkibana
    rw [hkibana]
    decide
  · split
    · simp
    · simp

theorem newline_notMem_indexPrefix {project : Text} (h : '\n' ∉ project) :
    '\n' ∉ indexPrefix project := by
  have hproj : '\n' ∉ projPrefix := by decide
  have hdot : '\n' ∉ ['.'] := by decide
  unfold indexPrefix
  split
  · exact h
  · split
    · rw [List.mem_append, not_or]
      exact ⟨h, hdot⟩
    · rw [List.mem_append, List.mem_append, not_or, not_or]
      exact ⟨⟨hproj, h⟩, hdot⟩

theorem begins_of_byProject {a : Action} {project index : Text} (hline : '\n' ∉ index)
    (hvalue : a.pattern.value = formatRegex project) (ha : a.matches index) :
    indexPrefix project <+: index := by
  rw [Action.matches, hvalue] at ha
  exact (formatRegex_matches project index hline).mp ha

theorem byProject_states_iff (hstated : RetentionStated config) {index : Text}
    (hline : '\n' ∉ index) :
    ByProject States env o config internal index ↔
      ByProject (Retains p) env o config internal index := by
  constructor
  · rintro ⟨i, a, project, node, fields, hi, hne, hnode, hfields, hvalue, hstates, hrest⟩
    exact ⟨i, a, project, node, fields, hi, hne, hnode, hfields, hvalue, .inl hstates, hrest⟩
  · rintro ⟨i, a, project, node, fields, hi, hne, hnode, hfields, hvalue, hretains, ha, hrest⟩
    have hname : '\n' ∉ project := by
      intro hmem
      refine hline ((begins_of_byProject hline hvalue ha).subset ?_)
      unfold indexPrefix
      split
      · exact hmem
      · split
        · exact List.mem_append_left _ hmem
        · exact List.mem_append_left _ (List.mem_append_right _ hmem)
    exact ⟨i, a, project, node, fields, hi, hne, hnode, hfields, hvalue,
      hretains.states (hstated project node fields hname hnode hfields), ha, hrest⟩

theorem byDefault_states_iff (hstated : RetentionStated config) {index : Text} :
    ByDefault States env o p config internal index ↔
      ByDefault (Retains p) env o p config internal index := by
  unfold ByDefault
  cases hnode : config.get? (.str dotDefaults) with
  | none => exact Iff.rfl
  | some node =>
    refine and_congr_right fun _ => and_congr_right fun _ => exists_congr fun fields => ?_
    refine and_congr_right fun hfields => ⟨.inl, fun h => h.states ?_⟩
    exact hstated dotDefaults node fields (by decide) hnode hfields

theorem namesUnit_of_project {document : Yaml} (hinit : Parser.init env = .ok p)
    (hconfig : Parser.configOf document = .ok config) (hregex : config.get? (.str dotRegex) = none)
    (haccept : accept env o (.ok document) = .ok internal)
    (h : Partitioned env o p config internal) {name : Text} {node : Yaml} {fields : Dict Yaml}
    (hline : '\n' ∉ name) (hdefaults : name ≠ dotDefaults)
    (hnode : config.get? (.str name) = some node) (hfields : node.dict? = some fields) :
    NamesUnit (Parser.deleteNode fields) := by
  obtain ⟨p', config', hinit', hconfig', hcreate⟩ := parse_ok.mp (accept_ok.mp haccept).1
  obtain rfl := Except.ok.inj (hinit.symm.trans hinit')
  obtain rfl := Except.ok.inj (hconfig.symm.trans hconfig')
  have hexplicit {name : Text} {node : Yaml} (hdefaults : name ≠ dotDefaults)
      (hnode : config.get? (.str name) = some node) :
      ∃ proj, (name, proj) ∈ explicitProjects o internal := by
    obtain ⟨proj, hproj⟩ := exists_internal hregex hcreate (k := .str name) (by rw [hnode]; rfl)
    refine ⟨proj, mem_explicitProjects.mpr ⟨hproj, hdefaults, ?_⟩⟩
    rintro rfl
    rw [hregex] at hnode
    contradiction
  have hvalid {name : Text} {proj : Project} (hmem : (name, proj) ∈ explicitProjects o internal) :=
    explicit_project hinit hconfig hregex haccept hmem
  obtain ⟨proj, hproj⟩ := hexplicit hdefaults hnode
  have hindex := newline_notMem_indexPrefix hline
  have hmem : generateAction env proj.delete (projectRegex name proj) false ∈
      explicitActions env o internal := List.mem_map.mpr ⟨(name, proj), hproj, rfl⟩
  have hmatches : (generateAction env proj.delete (projectRegex name proj) false).matches
      (indexPrefix name) := by
    simp only [Action.matches, generateAction_value, projectRegex, (hvalid hproj).2.notRaw,
      Bool.false_eq_true, ↓reduceIte, formatRegex_matches _ _ hindex]
    exact List.prefix_rfl
  rcases h.2 _ hindex with ⟨hproject, -⟩ | ⟨-, huntouched, -⟩ | ⟨-, -, hdefault⟩
  · obtain ⟨_, _, name', node', fields', -, hne, hnode', hfields', hvalue, hstates, ha, -⟩ :=
      hproject
    obtain ⟨proj', hproj'⟩ := hexplicit hne hnode'
    obtain rfl := eq_of_indexPrefix (hvalid hproj').1 (hvalid hproj).1
      (begins_of_byProject hindex hvalue ha) List.prefix_rfl
    obtain rfl := Option.some.inj (hnode.symm.trans hnode')
    obtain rfl := Option.some.inj (hfields.symm.trans hfields')
    exact hstates.namesUnit
  · exact absurd hmatches (huntouched.1 _ hmem)
  · have hselects := (explicit_selects hmem _).mpr hmatches
    rw [hdefault.1 _ hmem] at hselects
    contradiction

theorem namesUnit_of_defaults (h : Partitioned env o p config internal) {node : Yaml}
    {fields : Dict Yaml} (hnode : config.get? (.str dotDefaults) = some node)
    (hfields : node.dict? = some fields) : NamesUnit (Parser.deleteNode fields) := by
  have hline : '\n' ∉ ([] : Text) := List.not_mem_nil
  have hprefixes : ∀ s ∈ protectedPrefixes, s ≠ [] := by decide
  rcases h.2 [] hline with ⟨hproject, -⟩ | ⟨-, huntouched, -⟩ | ⟨-, -, hdefault⟩
  · obtain ⟨_, _, project, _, _, -, -, -, -, hvalue, -, ha, -⟩ := hproject
    exact absurd (List.prefix_nil.mp (begins_of_byProject hline hvalue ha))
      (indexPrefix_ne_nil project)
  · obtain ⟨s, hs, hprefix⟩ := huntouched.2.1
    exact absurd (List.prefix_nil.mp hprefix) (hprefixes s hs)
  · have hretention := hdefault.2.2
    rw [hnode] at hretention
    obtain ⟨fields', hfields', hstates⟩ := hretention
    obtain rfl := Option.some.inj (hfields.symm.trans hfields')
    exact hstates.namesUnit

/-- Every index falls to one rule with the retention of its own exactly when every entry of the
configuration names a unit. -/
theorem partitioned_iff {document : Yaml} (hinit : Parser.init env = .ok p)
    (hconfig : Parser.configOf document = .ok config) (hregex : config.get? (.str dotRegex) = none)
    (haccept : accept env o (.ok document) = .ok internal) :
    Partitioned env o p config internal ↔ RetentionStated config := by
  constructor
  · intro h name node fields hline hnode hfields
    by_cases hdefaults : name = dotDefaults
    · rw [hdefaults] at hnode
      exact namesUnit_of_defaults h hnode hfields
    · exact namesUnit_of_project hinit hconfig hregex haccept h hline hdefaults hnode hfields
  · intro hstated
    refine ⟨generate_of_accept haccept, fun index hline => ?_⟩
    rw [byProject_states_iff (p := p) hstated hline, byDefault_states_iff hstated]
    exact (retention_partition hinit hconfig hregex haccept hline).2

def oneProject (name : Text) (node : List (Key × Yaml)) : List (Key × Yaml) := [(.str name, .map node)]

def weeklyNode : List (Key × Yaml) :=
  [(.str "delete".toList, .map [(.str "weeks".toList, .int 2)])]

def oneInternal (name : Text) (delete : Delete) : Internal :=
  plainParser.seedDefaults (.ofList [(.str name, ⟨false, delete, none⟩)])

theorem partitioned_iff_weeks :
    Partitioned {} .insertion plainParser (.ofList (oneProject "foo".toList weeklyNode))
        (oneInternal "foo".toList ⟨.days, 14⟩) ↔
      RetentionStated (.ofList (oneProject "foo".toList weeklyNode)) :=
  have haccept : accept {} .insertion (.ok (.map (oneProject "foo".toList weeklyNode))) =
      .ok (oneInternal "foo".toList ⟨.days, 14⟩) := rfl
  partitioned_iff rfl rfl rfl haccept

def strayNode : List (Key × Yaml) := [(.str "bar".toList, .int 1)]

/-- A project without a delete node is accepted and gets an action all the same,
with a retention that the configuration does not state. -/
theorem retention_unstated :
    accept {} .insertion (.ok (.map (oneProject "foo".toList strayNode))) =
        .ok (oneInternal "foo".toList ⟨.days, 31⟩) ∧
      ¬ ExactlyOne
        (ByProject States {} .insertion (.ofList (oneProject "foo".toList strayNode))
          (oneInternal "foo".toList ⟨.days, 31⟩) "project.foo.2018.01.10".toList)
        (Untouched {} .insertion (oneInternal "foo".toList ⟨.days, 31⟩)
          "project.foo.2018.01.10".toList)
        (ByDefault States {} .insertion plainParser (.ofList (oneProject "foo".toList strayNode))
          (oneInternal "foo".toList ⟨.days, 31⟩) "project.foo.2018.01.10".toList) := by
  have hexplicit : ∃ a ∈ explicitActions {} .insertion (oneInternal "foo".toList ⟨.days, 31⟩),
      Regex.matchesText a.pattern.value "project.foo.2018.01.10".toList = true ∧
        a.selects "project.foo.2018.01.10".toList = true := by decide +kernel
  obtain ⟨a, hmem, hmatch, hselect⟩ := hexplicit
  refine ⟨rfl, ?_⟩
  rintro (⟨hproject, -⟩ | ⟨-, huntouched, -⟩ | ⟨-, -, hdefault⟩)
  · obtain ⟨_, _, project, node, fields, _, _, hnode, hfields, _, hstates, _⟩ := hproject
    obtain ⟨units, key, unit, v, n, hunits, hv, -⟩ := hstates
    have hfoo : node = .map strayNode := by
      simp only [oneProject, Dict.ofList, List.foldl_cons, List.foldl_nil, Dict.get?_insert,
        Dict.get?_empty] at hnode
      split at hnode
      · exact (Option.some.inj hnode).symm
      · contradiction
    subst hfoo
    obtain rfl := Option.some.inj hfields
    obtain rfl := Option.some.inj hunits
    contradiction
  · exact huntouched.1 a hmem hmatch
  · rw [hdefault.1 a hmem] at hselect
    contradiction

end AggregatedLogging.Curator
