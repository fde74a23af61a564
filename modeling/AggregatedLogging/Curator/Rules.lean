import AggregatedLogging.Curator.OwnOutput
import AggregatedLogging.Curator.ExitStatus
import AggregatedLogging.Curator.Retention
import Mathlib.Data.List.Perm.Subperm

/-! Whether every rule of a legacy configuration gets an action. -/
namespace AggregatedLogging.Curator

open Python

variable {env : Env} {o : Order} {p : Parser} {config : Dict Yaml} {internal : Internal}

/-- The loop of `generate`: the number of the next action, and the actions. -/
def generateStep (env : Env) (s : Nat × List (Nat × Action)) (q : Text × Project) :
    Nat × List (Nat × Action) :=
  (s.1 + 1, s.2 ++ [(s.1, generateAction env q.2.delete (projectRegex q.1 q.2) false)])

/-- The actions under their numbers, the defaults at the end. -/
def numberedActions (env : Env) (o : Order) (internal : Internal) : List (Nat × Action) :=
  let s := (explicitProjects o internal).foldl (generateStep env) (1, [])
  s.2 ++ [(s.1, generateDefaults env o internal)]

theorem foldl_generateStep (env : Env) (l : List (Text × Project)) (n : Nat)
    (done : List (Nat × Action)) :
    l.foldl (generateStep env) (n, done) = (n + l.length,
      done ++ (List.range' n l.length).zip
        (l.map fun q => generateAction env q.2.delete (projectRegex q.1 q.2) false)) := by
  induction l generalizing n done with
  | nil => simp
  | cons q l ih =>
    rw [List.foldl_cons, generateStep, ih, List.length_cons, List.range'_succ, List.map_cons,
      List.zip_cons_cons, List.append_assoc, List.singleton_append]
    congr 1
    omega

theorem numberedActions_eq (env : Env) (o : Order) (internal : Internal) :
    numberedActions env o internal =
      (List.range' 1 (actionsOf env o internal).length).zip (actionsOf env o internal) := by
  have hlength : (explicitActions env o internal).length = (explicitProjects o internal).length :=
    List.length_map _
  rw [numberedActions, foldl_generateStep, actionsOf, List.length_append, List.length_singleton,
    hlength, List.range'_concat, List.zip_append (by simp [hlength])]
  simp [explicitActions]

def projectRule (p : Parser) (o : Order) (config : Dict Yaml) (project : Key) :
    Option (Text × Delete) :=
  (config.get? project).bind fun node => node.dict?.bind fun fields => project.text?.bind fun name =>
    (p.unitCount o (Parser.deleteNode fields)).toOption.map fun delete => (formatRegex name, delete)

def regexRule (p : Parser) (o : Order) (regex : Yaml) : Option (Text × Delete) :=
  regex.dict?.bind fun fields => ((regexKey regex).bind Key.text?).bind fun pattern =>
    (p.unitCount o (Parser.deleteNode fields)).toOption.map fun delete => (pattern, delete)

def projectKeys (o : Order) (config : Dict Yaml) : List Key :=
  (o.keys config).filter fun k => k ≠ .str dotDefaults ∧ k ≠ .str dotRegex

def regexItems (config : Dict Yaml) : List Yaml :=
  match config.get? (.str dotRegex) with
  | some (.seq items) => items
  | _ => []

/-- A rule for each project, and one for each regular expression of the list. -/
def rules (p : Parser) (o : Order) (config : Dict Yaml) : List (Text × Delete) :=
  (projectKeys o config).filterMap (projectRule p o config) ++
    (regexItems config).filterMap (regexRule p o)

def patternKeys (config : Dict Yaml) : List Key := (regexItems config).filterMap regexKey

def DefaultsRetain (p : Parser) (o : Order) (config : Dict Yaml) (retention : Delete) : Prop :=
  match config.get? (.str dotDefaults) with
  | none => retention = p.builtinDelete
  | some node => ∃ fields, node.dict? = some fields ∧
      p.unitCount o (Parser.deleteNode fields) = .ok retention

/-- Every rule has an action of its own, and the defaults have the last one. -/
structure KeepsRules (env : Env) (p : Parser) (o : Order) (config : Dict Yaml)
    (internal : Internal) : Prop where
  generated : generate env o internal = .ok ((numberedActions env o internal).map Prod.snd)
  numbers : (numberedActions env o internal).map Prod.fst = List.range' 1 ((rules p o config).length + 1)
  actions : ((numberedActions env o internal).map Prod.snd).dropLast.Perm
    ((rules p o config).map fun r => generateAction env r.2 r.1 false)
  last : ∃ default, ((numberedActions env o internal).map Prod.snd).getLast? = some default ∧
    default = generateDefaults env o internal ∧ DefaultsRetain p o config default.retention

def entriesOf (p : Parser) (o : Order) (config : Dict Yaml) (k : Key) : List (Key × Project) :=
  ((p.assignments o config k).toOption).getD []

def ruleOf (q : Key × Project) : Option (Text × Delete) :=
  q.1.text?.map fun name => (projectRegex name q.2, q.2.delete)

theorem retentions_eq (o : Order) (internal : Internal) :
    retentions o internal = (actionEntries o internal).filterMap ruleOf := by
  rw [retentions, explicitProjects, List.map_filterMap]
  congr 1
  funext q
  rw [ruleOf, Option.map_map]
  rfl

theorem flatMap_perm_split {ks : List Key} {f : Key → List α} {k : Key} (hnodup : ks.Nodup)
    (h : k ∉ ks → f k = []) : (ks.flatMap f).Perm ((ks.filter (· ≠ k)).flatMap f ++ f k) := by
  by_cases hk : k ∈ ks
  · have hsplit : ks.Perm (ks.filter (· ≠ k) ++ [k]) := by
      have herase : ks.erase k = ks.filter (· ≠ k) := by
        rw [hnodup.erase_eq_filter k]
        exact List.filter_congr fun j _ => (decide_not).symm
      refine (List.perm_cons_erase hk).trans ?_
      rw [herase]
      exact (List.perm_append_singleton k _).symm
    refine (hsplit.flatMap_right f).trans ?_
    rw [List.flatMap_append, List.flatMap_singleton]
  · have hself : ks.filter (· ≠ k) = ks := by
      rw [List.filter_eq_self]
      intro j hj
      exact decide_eq_true (ne_of_mem_of_not_mem hj hk)
    rw [hself, h hk, List.append_nil]

theorem entriesOf_missing {k : Key} (h : config.get? k = none) : entriesOf p o config k = [] := by
  unfold entriesOf Parser.assignments
  rw [h]
  rfl

section Created

variable (hcreate : p.createInternalRepresentation o config = .ok internal)

include hcreate

theorem assignments_entriesOf {k : Key} (hk : k ∈ o.keys config) :
    p.assignments o config k = .ok (entriesOf p o config k) := by
  obtain ⟨assigned, hassigned, -⟩ := bind_ok.mp hcreate
  obtain ⟨entries, hentries⟩ := exists_mapM_ok.mp ⟨assigned, hassigned⟩ k hk
  rw [entriesOf, hentries]
  rfl

theorem internal_eq :
    internal = p.seedDefaults (.ofList ((o.keys config).flatMap (entriesOf p o config))) := by
  obtain ⟨assigned, hassigned, h⟩ := bind_ok.mp hcreate
  have hmap : assigned = (o.keys config).map (entriesOf p o config) :=
    mapM_eq_map hassigned fun k entries h => by rw [entriesOf, h]; rfl
  rw [← Except.ok.inj h, hmap, List.flatMap_def]

theorem entriesOf_project {k : Key} (hk : k ∈ o.keys config) (hregex : k ≠ .str dotRegex) :
    ∃ proj, entriesOf p o config k = [(k, proj)] ∧ FromProject p o config k proj :=
  assignments_ok hregex (Order.mem_keys.mp hk) (assignments_entriesOf hcreate hk)

omit hcreate in
theorem ruleOf_project {k : Key} {proj : Project} (h : FromProject p o config k proj) :
    ruleOf (k, proj) = projectRule p o config k := by
  obtain ⟨hraw, node, fields, hnode, hfields, hdelete⟩ := h
  rw [ruleOf, projectRule, hnode, Option.bind_some, hfields, Option.bind_some, hdelete]
  cases k.text? with
  | none => rfl
  | some name => simp only [projectRegex, hraw]; rfl

omit hcreate in
theorem regexEntry_delete {regex : Yaml} {entry : Key × Project}
    (h : p.regexEntry o regex = .ok entry) : ∃ fields, regex.dict? = some fields ∧
      p.unitCount o (Parser.deleteNode fields) = .ok entry.2.delete := by
  unfold Parser.regexEntry at h
  split at h
  · contradiction
  · rename_i fields hfields
    simp only at h
    split at h
    · contradiction
    · rename_i hcomplete
      obtain ⟨delete, hdelete, h⟩ := bind_ok.mp h
      have hnode : (fields.get? (.str "delete".toList)).getD .null = Parser.deleteNode fields := by
        unfold Parser.deleteNode
        cases hget : fields.get? (.str "delete".toList) with
        | none => rw [hget] at hcomplete; exact absurd (Bool.true_or _) hcomplete
        | some v => rfl
      rw [hnode] at hdelete
      split at h
      · contradiction
      · rw [← Except.ok.inj h]
        exact ⟨fields, hfields, hdelete⟩

omit hcreate in
theorem regexEntry_rule {regex : Yaml} {entry : Key × Project}
    (h : p.regexEntry o regex = .ok entry) : ruleOf entry = regexRule p o regex := by
  obtain ⟨hkey, hraw⟩ := regexEntry_name h
  obtain ⟨fields, hfields, hdelete⟩ := regexEntry_delete h
  rw [regexRule, hkey, Option.bind_some, ruleOf, hfields, Option.bind_some, hdelete]
  cases entry.1.text? with
  | none => rfl
  | some name => simp only [projectRegex, hraw]; rfl

theorem entriesOf_regex :
    (entriesOf p o config (.str dotRegex)).filterMap ruleOf = (regexItems config).filterMap (regexRule p o) ∧
      (entriesOf p o config (.str dotRegex)).map Prod.fst = patternKeys config := by
  cases hnode : config.get? (.str dotRegex) with
  | none =>
    rw [entriesOf_missing hnode, patternKeys, regexItems, hnode]
    exact ⟨rfl, rfl⟩
  | some node =>
    have hk : .str dotRegex ∈ o.keys config := by rw [Order.mem_keys, hnode]; rfl
    have h := assignments_entriesOf hcreate hk
    generalize entriesOf p o config (.str dotRegex) = entries at h ⊢
    rw [patternKeys, regexItems, hnode]
    unfold Parser.assignments at h
    rw [hnode] at h
    simp only [Option.getD_some] at h
    split at h
    · contradiction
    · rename_i htruthy
      rw [if_pos trivial] at h
      cases node with
      | seq items =>
        have hall := mapM_ok.mp h
        clear h hnode htruthy
        induction hall with
        | nil => exact ⟨rfl, rfl⟩
        | cons hentry _ ih =>
          obtain ⟨hrules, hkeys⟩ := ih
          simp only at hrules hkeys ⊢
          rw [List.filterMap_cons, List.filterMap_cons, List.map_cons, List.filterMap_cons,
            regexEntry_rule hentry, (regexEntry_name hentry).1, hrules, hkeys]
          exact ⟨rfl, rfl⟩
      | _ => contradiction

theorem regexEntry_ok {regex : Yaml} (hregex : regex ∈ regexItems config) :
    ∃ entry, p.regexEntry o regex = .ok entry := by
  cases hnode : config.get? (.str dotRegex) with
  | none =>
    rw [regexItems, hnode] at hregex
    contradiction
  | some node =>
    have hk : .str dotRegex ∈ o.keys config := by rw [Order.mem_keys, hnode]; rfl
    have h := assignments_entriesOf hcreate hk
    rw [regexItems, hnode] at hregex
    unfold Parser.assignments at h
    rw [hnode] at h
    simp only [Option.getD_some] at h
    split at h
    · contradiction
    · rw [if_pos trivial] at h
      cases node with
      | seq items => exact exists_mapM_ok.mp ⟨_, h⟩ regex hregex
      | _ => contradiction

def explicitEntries (p : Parser) (o : Order) (config : Dict Yaml) : List (Key × Project) :=
  (projectKeys o config).flatMap (entriesOf p o config) ++ entriesOf p o config (.str dotRegex)

theorem projectEntries {ks : List Key} (hks : ∀ k ∈ ks, k ∈ o.keys config ∧ k ≠ .str dotRegex) :
    (ks.flatMap (entriesOf p o config)).filterMap ruleOf = ks.filterMap (projectRule p o config) ∧
      (ks.flatMap (entriesOf p o config)).map Prod.fst = ks := by
  induction ks with
  | nil => exact ⟨rfl, rfl⟩
  | cons k ks ih =>
    rw [List.forall_mem_cons] at hks
    obtain ⟨hrules, hkeys⟩ := ih hks.2
    obtain ⟨proj, hentries, hfrom⟩ := entriesOf_project hcreate hks.1.1 hks.1.2
    rw [List.flatMap_cons, hentries, List.singleton_append, List.filterMap_cons, List.filterMap_cons,
      List.map_cons, ruleOf_project hfrom, hrules, hkeys]
    exact ⟨rfl, rfl⟩

omit hcreate in
theorem mem_projectKeys {k : Key} : k ∈ projectKeys o config ↔
    (config.get? k).isSome = true ∧ k ≠ .str dotDefaults ∧ k ≠ .str dotRegex := by
  rw [projectKeys, List.mem_filter, Order.mem_keys, decide_eq_true_eq]

theorem explicitEntries_rules : (explicitEntries p o config).filterMap ruleOf = rules p o config := by
  have hprojects := @projectEntries o p config internal hcreate (projectKeys o config) fun k hk =>
    ⟨Order.mem_keys.mpr (mem_projectKeys.mp hk).1, (mem_projectKeys.mp hk).2.2⟩
  rw [explicitEntries, List.filterMap_append, hprojects.1, (entriesOf_regex hcreate).1, rules]

theorem explicitEntries_keys :
    (explicitEntries p o config).map Prod.fst = projectKeys o config ++ patternKeys config := by
  have hprojects := @projectEntries o p config internal hcreate (projectKeys o config) fun k hk =>
    ⟨Order.mem_keys.mpr (mem_projectKeys.mp hk).1, (mem_projectKeys.mp hk).2.2⟩
  rw [explicitEntries, List.map_append, hprojects.2, (entriesOf_regex hcreate).2]

omit hcreate in
theorem assigned_perm : ((o.keys config).flatMap (entriesOf p o config)).Perm
    (explicitEntries p o config ++ entriesOf p o config (.str dotDefaults)) := by
  have hmissing (k : Key) (ks : List Key) (hks : k ∈ o.keys config → k ∈ ks) :
      k ∉ ks → entriesOf p o config k = [] := by
    intro hk
    apply entriesOf_missing
    rw [← Option.not_isSome_iff_eq_none, ← Order.mem_keys (o := o)]
    exact fun h => hk (hks h)
  have hnodup := o.keys_nodup config
  refine (flatMap_perm_split hnodup (hmissing (.str dotDefaults) _ id)).trans ?_
  refine List.Perm.append_right _ ?_
  refine (flatMap_perm_split (hnodup.filter _) (hmissing (.str dotRegex) _ ?_)).trans ?_
  · intro h
    exact List.mem_filter.mpr ⟨h, by decide⟩
  · refine List.Perm.append_right _ (.of_eq ?_)
    rw [projectKeys, List.filter_filter]
    congr 1
    exact List.filter_congr fun k _ => by simp [Bool.and_comm]

/-- No pattern of the list is used twice, or is the name of a project or of the
defaults. -/
def Distinct (config : Dict Yaml) : Prop :=
  (patternKeys config).Nodup ∧
    ∀ k ∈ patternKeys config, k ≠ .str dotDefaults ∧ config.get? k = none

instance (config : Dict Yaml) : Decidable (Distinct config) :=
  inferInstanceAs (Decidable (_ ∧ _))

omit hcreate in
theorem regex_of_patternKeys {k : Key} (hk : k ∈ patternKeys config) :
    (config.get? (.str dotRegex)).isSome = true := by
  unfold patternKeys regexItems at hk
  cases hnode : config.get? (.str dotRegex) with
  | none => rw [hnode] at hk; contradiction
  | some node => rfl

/-- In other words, the assignments are for different keys, and those get an action. -/
theorem distinct_iff : Distinct config ↔
    ((explicitEntries p o config).map Prod.fst).Nodup ∧
      ∀ q ∈ explicitEntries p o config, q.1 ≠ .str dotDefaults ∧ q.1 ≠ .str dotRegex := by
  have hspecial : (∀ q ∈ explicitEntries p o config, q.1 ≠ .str dotDefaults ∧ q.1 ≠ .str dotRegex) ↔
      ∀ k ∈ (explicitEntries p o config).map Prod.fst, k ≠ .str dotDefaults ∧ k ≠ .str dotRegex := by
    rw [List.forall_mem_map]
  rw [hspecial, explicitEntries_keys hcreate, List.nodup_append]
  constructor
  · rintro ⟨hnodup, hapart⟩
    refine ⟨⟨(o.keys_nodup config).filter _, hnodup, ?_⟩, ?_⟩
    · rintro k hk _ hk' rfl
      have hsome := (mem_projectKeys.mp hk).1
      rw [(hapart k hk').2] at hsome
      contradiction
    · intro k hk
      rcases List.mem_append.mp hk with hk | hk
      · exact (mem_projectKeys.mp hk).2
      · refine ⟨(hapart k hk).1, ?_⟩
        rintro rfl
        have hsome := regex_of_patternKeys hk
        rw [(hapart _ hk).2] at hsome
        contradiction
  · rintro ⟨⟨-, hnodup, hdisjoint⟩, hspecial⟩
    refine ⟨hnodup, fun k hk => ?_⟩
    obtain ⟨hdefaults, hregex⟩ := hspecial k (List.mem_append_right _ hk)
    refine ⟨hdefaults, ?_⟩
    by_contra hsome
    exact hdisjoint k (mem_projectKeys.mpr
      ⟨Option.isSome_iff_ne_none.mpr hsome, hdefaults, hregex⟩) k hk rfl

theorem entriesOf_defaults :
    (config.get? (.str dotDefaults) = none ∧ entriesOf p o config (.str dotDefaults) = []) ∨
      ∃ proj, entriesOf p o config (.str dotDefaults) = [(.str dotDefaults, proj)] ∧
        FromProject p o config (.str dotDefaults) proj := by
  cases hget : config.get? (.str dotDefaults) with
  | none => exact .inl ⟨rfl, entriesOf_missing hget⟩
  | some node =>
    have hk : .str dotDefaults ∈ o.keys config := by rw [Order.mem_keys, hget]; rfl
    exact .inr (entriesOf_project hcreate hk (by decide))

theorem entriesOf_defaults_key {q : Key × Project}
    (hq : q ∈ entriesOf p o config (.str dotDefaults)) : q.1 = .str dotDefaults := by
  rcases entriesOf_defaults hcreate with ⟨-, hentries⟩ | ⟨proj, hentries, -⟩
  · rw [hentries] at hq
    contradiction
  · rw [hentries, List.mem_singleton] at hq
    rw [hq]

theorem mem_explicitEntries {q : Key × Project}
    (hq : q ∈ (o.keys config).flatMap (entriesOf p o config)) (hdefaults : q.1 ≠ .str dotDefaults) :
    q ∈ explicitEntries p o config := by
  rcases List.mem_append.mp (assigned_perm.mem_iff.mp hq) with hq | hq
  · exact hq
  · exact absurd (entriesOf_defaults_key hcreate hq) hdefaults

theorem actionEntries_subset {q : Key × Project} (hq : q ∈ actionEntries o internal) :
    q ∈ explicitEntries p o config := by
  obtain ⟨hget, hdefaults, -⟩ := mem_actionEntries.mp hq
  rw [internal_eq hcreate, seedDefaults_get?, if_neg hdefaults] at hget
  exact mem_explicitEntries hcreate (Dict.mem_of_get?_ofList hget) hdefaults

omit hcreate in
theorem actionEntries_keys_nodup (o : Order) (internal : Internal) :
    ((actionEntries o internal).map Prod.fst).Nodup := by
  have hsub : ((actionEntries o internal).map Prod.fst).Sublist ((projects o internal).map Prod.fst) :=
    List.filter_sublist.map _
  refine hsub.nodup ?_
  rw [projects, List.map_filterMap]
  refine List.Nodup.filterMap ?_ (o.keys_nodup internal)
  intro k j i hk hj
  simp only [Option.map_map, Option.mem_def, Option.map_eq_some_iff] at hk hj
  obtain ⟨_, -, hk⟩ := hk
  obtain ⟨_, -, hj⟩ := hj
  exact hk.trans hj.symm

theorem assigned_keys_nodup (hdistinct : Distinct config) :
    (((o.keys config).flatMap (entriesOf p o config)).map Prod.fst).Nodup := by
  obtain ⟨hnodup, hspecial⟩ := (distinct_iff hcreate).mp hdistinct
  rw [(assigned_perm.map Prod.fst).nodup_iff, List.map_append]
  rcases entriesOf_defaults hcreate with ⟨-, hentries⟩ | ⟨proj, hentries, -⟩
  · rw [hentries, List.map_nil, List.append_nil]
    exact hnodup
  · rw [hentries, List.map_singleton, List.nodup_append]
    refine ⟨hnodup, List.nodup_singleton _, ?_⟩
    intro k hk k' hk'
    obtain ⟨q, hq, rfl⟩ := List.mem_map.mp hk
    rw [List.mem_singleton.mp hk']
    exact (hspecial q hq).1

/-- When the assignments are for different keys, each of them gets an action. -/
theorem actionEntries_perm (hdistinct : Distinct config) :
    (actionEntries o internal).Perm (explicitEntries p o config) := by
  obtain ⟨hnodup, hspecial⟩ := (distinct_iff hcreate).mp hdistinct
  refine (List.perm_ext_iff_of_nodup (actionEntries_keys_nodup o internal).of_map hnodup.of_map).mpr ?_
  intro q
  refine ⟨actionEntries_subset hcreate, fun hq => ?_⟩
  have hall := assigned_keys_nodup hcreate hdistinct
  refine mem_actionEntries.mpr ⟨?_, hspecial q hq⟩
  rw [internal_eq hcreate, seedDefaults_get?, if_neg (hspecial q hq).1,
    Dict.get?_ofList_eq_some hall, assigned_perm.mem_iff]
  exact List.mem_append_left _ hq

theorem distinct_of_length
    (hlength : (actionEntries o internal).length = (explicitEntries p o config).length) :
    Distinct config := by
  have hsub : (actionEntries o internal).map Prod.fst ⊆ ((explicitEntries p o config).filter fun q =>
      q.1 ≠ .str dotDefaults ∧ q.1 ≠ .str dotRegex).map Prod.fst := by
    intro k hk
    obtain ⟨q, hq, rfl⟩ := List.mem_map.mp hk
    refine List.mem_map_of_mem (List.mem_filter.mpr ⟨actionEntries_subset hcreate hq, ?_⟩)
    exact decide_eq_true (mem_actionEntries.mp hq).2
  have hsubperm := (actionEntries_keys_nodup o internal).subperm hsub
  have hshort := List.length_filter_le (fun q : Key × Project =>
    decide (q.1 ≠ .str dotDefaults ∧ q.1 ≠ .str dotRegex)) (explicitEntries p o config)
  have hperm := hsubperm.perm_of_length_le (by rw [List.length_map, List.length_map, hlength]; exact hshort)
  have hkept := hperm.length_eq
  rw [List.length_map, List.length_map, hlength] at hkept
  have hall := List.length_filter_eq_length_iff.mp hkept.symm
  have hnodup := hperm.nodup (actionEntries_keys_nodup o internal)
  rw [List.filter_eq_self.mpr hall] at hnodup
  exact (distinct_iff hcreate).mpr ⟨hnodup, fun q hq => of_decide_eq_true (hall q hq)⟩

theorem defaults_retain (hdistinct : Distinct config) :
    DefaultsRetain p o config (defaultDelete internal) := by
  have hall := assigned_keys_nodup hcreate hdistinct
  have hget : internal.get? (.str dotDefaults) = some (((Dict.ofList
      ((o.keys config).flatMap (entriesOf p o config))).get? (.str dotDefaults)).getD p.defaults) := by
    rw [internal_eq hcreate, seedDefaults_get?, if_pos rfl]
  rw [defaultDelete, hget, DefaultsRetain, Option.map_some, Option.getD_some]
  rcases entriesOf_defaults hcreate with ⟨hmissing, hentries⟩ | ⟨proj, hentries, hfrom⟩
  · have hnone : (Dict.ofList ((o.keys config).flatMap (entriesOf p o config))).get?
        (.str dotDefaults) = none := by
      rw [Option.eq_none_iff_forall_ne_some]
      intro proj hproj
      have hmem := assigned_perm.mem_iff.mp ((Dict.get?_ofList_eq_some hall).mp hproj)
      rw [hentries, List.append_nil] at hmem
      exact ((distinct_iff hcreate).mp hdistinct).2 _ hmem |>.1 rfl
    rw [hmissing, hnone]
    rfl
  · have hmem : (.str dotDefaults, proj) ∈ (o.keys config).flatMap (entriesOf p o config) := by
      rw [assigned_perm.mem_iff, hentries]
      exact List.mem_append_right _ (List.mem_singleton_self _)
    obtain ⟨node, fields, hnode, hfields, hdelete⟩ := hfrom.delete
    rw [(Dict.get?_ofList_eq_some hall).mpr hmem, hnode]
    exact ⟨fields, hfields, hdelete⟩

end Created

section Accepted

variable {document : Yaml}

theorem length_filterMap_ruleOf {l : List (Key × Project)}
    (h : ∀ q ∈ l, q.1.text?.isSome = true) : (l.filterMap ruleOf).length = l.length := by
  induction l with
  | nil => rfl
  | cons q l ih =>
    rw [List.forall_mem_cons] at h
    obtain ⟨name, hname⟩ := Option.isSome_iff_exists.mp h.1
    rw [List.filterMap_cons, ruleOf, hname, Option.map_some, List.length_cons, ih h.2,
      List.length_cons]

theorem createInternal_of_accept (hinit : Parser.init env = .ok p)
    (hconfig : Parser.configOf document = .ok config)
    (haccept : accept env o (.ok document) = .ok internal) :
    p.createInternalRepresentation o config = .ok internal := by
  obtain ⟨p', config', hinit', hconfig', hcreate⟩ := parse_ok.mp (accept_ok.mp haccept).1
  obtain rfl := Except.ok.inj (hinit.symm.trans hinit')
  obtain rfl := Except.ok.inj (hconfig.symm.trans hconfig')
  exact hcreate

theorem text_of_explicitEntries (hcreate : p.createInternalRepresentation o config = .ok internal)
    (haccept : accept env o (.ok document) = .ok internal) {q : Key × Project}
    (hq : q ∈ explicitEntries p o config) : q.1.text?.isSome = true := by
  have hmem : q ∈ (o.keys config).flatMap (entriesOf p o config) :=
    assigned_perm.mem_iff.mpr (List.mem_append_left _ hq)
  have hsome : ((Dict.ofList ((o.keys config).flatMap (entriesOf p o config))).get? q.1).isSome = true := by
    rw [Dict.get?_ofList, Option.isSome_iff_ne_none, ne_eq, List.lookup_eq_none_iff]
    intro hall
    simpa using hall q (List.mem_reverse.mpr hmem)
  obtain ⟨proj, hproj⟩ := Option.isSome_iff_exists.mp hsome
  have hget : ∃ proj, internal.get? q.1 = some proj := by
    rw [internal_eq hcreate, seedDefaults_get?, hproj]
    split
    · exact ⟨_, rfl⟩
    · exact ⟨_, rfl⟩
  obtain ⟨proj', hproj'⟩ := hget
  exact text_of_valid ((accept_ok.mp haccept).2 (q.1, proj') (mem_projects.mpr hproj'))

/-- Each rule gets an action unless two of them are kept under one name. -/
theorem keepsRules_iff (hinit : Parser.init env = .ok p)
    (hconfig : Parser.configOf document = .ok config)
    (haccept : accept env o (.ok document) = .ok internal) :
    KeepsRules env p o config internal ↔ Distinct config := by
  have hcreate := createInternal_of_accept hinit hconfig haccept
  have hrules : (rules p o config).length = (explicitEntries p o config).length := by
    rw [← explicitEntries_rules hcreate]
    exact length_filterMap_ruleOf fun q hq => text_of_explicitEntries hcreate haccept hq
  have hnumbered : (numberedActions env o internal).map Prod.snd = actionsOf env o internal := by
    rw [numberedActions_eq, List.map_snd_zip (by simp)]
  have hexplicit : (explicitActions env o internal).length = (actionEntries o internal).length := by
    rw [explicitActions_eq, List.length_map, retentions_eq]
    exact length_filterMap_ruleOf fun q hq =>
      text_of_explicitEntries hcreate haccept (actionEntries_subset hcreate hq)
  constructor
  · intro h
    have hperm := h.actions
    rw [hnumbered, actionsOf, List.dropLast_concat] at hperm
    have hlength := hperm.length_eq
    rw [List.length_map, hexplicit, hrules] at hlength
    exact distinct_of_length hcreate hlength
  · intro hdistinct
    have hperm := actionEntries_perm hcreate hdistinct
    refine ⟨?_, ?_, ?_, ?_⟩
    · rw [hnumbered, actionsOf]
      exact generate_of_accept haccept
    · rw [numberedActions_eq, List.map_fst_zip (by simp), actionsOf, List.length_append, hexplicit,
        hperm.length_eq, hrules]
      rfl
    · rw [hnumbered, actionsOf, List.dropLast_concat, explicitActions_eq, retentions_eq,
        ← explicitEntries_rules hcreate]
      exact (hperm.filterMap ruleOf).map _
    · rw [hnumbered, actionsOf, List.getLast?_concat]
      exact ⟨_, rfl, rfl, defaults_retain hcreate hdistinct⟩

end Accepted

def daysNode (n : Int) : Yaml := .map [(.str "days".toList, .int n)]

def mixedDocument (name pattern : Text) : List (Key × Yaml) :=
  [(.str name, .map [(.str "delete".toList, daysNode 2)]),
    (.str dotRegex, .seq [.map [(.str "pattern".toList, .str pattern),
      (.str "delete".toList, daysNode 1)]])]

def mixedInternal (name pattern : Text) : Internal :=
  plainParser.seedDefaults (.ofList
    [(.str name, ⟨false, ⟨.days, 2⟩, none⟩), (.str pattern, ⟨true, ⟨.days, 1⟩, none⟩)])

theorem keepsRules_iff_mixed :
    KeepsRules {} plainParser .insertion (.ofList (mixedDocument "foo".toList "^project\\.b".toList))
      (mixedInternal "foo".toList "^project\\.b".toList) :=
  have haccept : accept {} .insertion (.ok (.map (mixedDocument "foo".toList "^project\\.b".toList))) =
      .ok (mixedInternal "foo".toList "^project\\.b".toList) := rfl
  (keepsRules_iff rfl rfl haccept).mpr (by decide +kernel)

/-- A pattern that is also the name of a project leaves only one of the two rules. -/
theorem not_keepsRules_shared :
    accept {} .insertion (.ok (.map (mixedDocument "foo".toList "foo".toList))) =
        .ok (mixedInternal "foo".toList "foo".toList) ∧
      ¬ KeepsRules {} plainParser .insertion (.ofList (mixedDocument "foo".toList "foo".toList))
        (mixedInternal "foo".toList "foo".toList) := by
  have hactions : (numberedActions {} .insertion (mixedInternal "foo".toList "foo".toList)).map Prod.fst =
      [1, 2] := by decide +kernel
  have hrules : (rules plainParser .insertion
      (.ofList (mixedDocument "foo".toList "foo".toList))).length = 2 := by decide +kernel
  refine ⟨rfl, fun h => ?_⟩
  have hnumbers := h.numbers
  rw [hactions, hrules] at hnumbers
  contradiction

end AggregatedLogging.Curator
