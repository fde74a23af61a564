import AggregatedLogging.Curator.DefaultAction
import AggregatedLogging.Curator.Process

/-! What the converter makes of its own output, read as a legacy configuration. -/
namespace AggregatedLogging.Curator

open Python

def actionsKey : Key := .str "actions".toList

def actionsOf (env : Env) (o : Order) (internal : Internal) : List Action :=
  explicitActions env o internal ++ [generateDefaults env o internal]

def Parser.builtinDelete (p : Parser) : Delete := ⟨p.defaultTimeUnit, p.defaultCount⟩

/-- An actions file as a document: the member `actions` of a mapping, with the
actions under their numbers. -/
def IsActions (document : Yaml) : Prop :=
  ∃ entries : List (Key × Yaml), document = .map [(actionsKey, .map entries)] ∧ entries ≠ [] ∧
    ∀ e ∈ entries, ∃ q, e.1 = .scalar (.number q)

/-- The internal configuration of such a document. -/
def ownInternal (p : Parser) : Internal :=
  (Dict.ofList [(actionsKey, { rawRegex := false, delete := p.builtinDelete })]).insert
    (.str dotDefaults) p.defaults

def retentions (o : Order) (internal : Internal) : List (Text × Delete) :=
  (explicitProjects o internal).map fun p => (projectRegex p.1 p.2, p.2.delete)

section Own

variable {env : Env} {o : Order} {p : Parser}

theorem keys_single (o : Order) (k : Key) (v : α) : o.keys (Dict.ofList [(k, v)]) = [k] :=
  List.perm_singleton.mp (o.perm [k])

/-- Numbers are no names, so there is no delete node and the retention is the
built-in one. -/
theorem unitCount_own {entries : List (Key × Yaml)}
    (hentries : ∀ e ∈ entries, ∃ q, e.1 = .scalar (.number q)) :
    p.unitCount o (Parser.deleteNode (Dict.ofList entries)) = .ok p.builtinDelete := by
  have hmissing : (Dict.ofList entries).get? (.str "delete".toList) = none := by
    rw [Dict.get?_ofList, List.lookup_eq_none_iff]
    intro e he
    obtain ⟨q, hq⟩ := hentries e (List.mem_reverse.mp he)
    rw [hq]
    rfl
  have hnone : o.keys (Dict.ofList ([] : List (Key × Yaml))) = [] := List.perm_nil.mp (o.perm [])
  rw [Parser.deleteNode, hmissing, Option.getD_none]
  change (o.keys (Dict.ofList ([] : List (Key × Yaml)))).foldlM _ p.builtinDelete = _
  rw [hnone]
  rfl

theorem parse_own {document : Yaml} (hdocument : IsActions document) (hp : Parser.init env = .ok p) :
    parse env o (.ok document) = .ok (ownInternal p) := by
  obtain ⟨entries, rfl, hne, hentries⟩ := hdocument
  have hconfig : Parser.configOf (.map [(actionsKey, .map entries)]) =
      .ok (Dict.ofList [(actionsKey, .map entries)]) := rfl
  have hget : (Dict.ofList [(actionsKey, Yaml.map entries)]).get? actionsKey = some (.map entries) := by
    simp [Dict.get?_ofList]
  have htruthy : (Yaml.map entries).truthy = true := by
    simpa [Yaml.truthy] using hne
  have hassign : p.assignments o (Dict.ofList [(actionsKey, .map entries)]) actionsKey =
      .ok [(actionsKey, { rawRegex := false, delete := p.builtinDelete })] := by
    rw [Parser.assignments, hget, Option.getD_some]
    simp only [htruthy, Bool.not_true, Bool.false_eq_true, if_false]
    rw [if_neg (by decide), Parser.projectEntry, Yaml.dict?]
    simp only [unitCount_own hentries]
    rfl
  rw [parse, hp]
  change (do
    let config ← Parser.configOf (.map [(actionsKey, .map entries)])
    p.createInternalRepresentation o config) = _
  rw [hconfig]
  change p.createInternalRepresentation o _ = _
  rw [Parser.createInternalRepresentation, keys_single, List.mapM_cons, hassign]
  rfl

theorem projects_own (o : Order) (p : Parser) : (projects o (ownInternal p)).Perm
    [(actionsKey, { rawRegex := false, delete := p.builtinDelete }), (.str dotDefaults, p.defaults)] :=
  (o.perm _).filterMap _

theorem accept_own {document : Yaml} (hdocument : IsActions document) (hp : Parser.init env = .ok p) :
    accept env o (.ok document) = .ok (ownInternal p) := by
  refine accept_ok.mpr ⟨parse_own hdocument hp, fun e he => ?_⟩
  have hmem := (projects_own o p).mem_iff.mp he
  simp only [List.mem_cons, List.not_mem_nil, or_false] at hmem
  rcases hmem with rfl | rfl
  · rfl
  · rfl

theorem explicitProjects_own (o : Order) (p : Parser) : explicitProjects o (ownInternal p) =
    [("actions".toList, { rawRegex := false, delete := p.builtinDelete })] := by
  have hperm := ((projects_own o p).filter fun e => e.1 ≠ .str dotDefaults ∧ e.1 ≠ .str dotRegex).filterMap
    fun e => e.1.text?.map fun name => (name, e.2)
  exact List.perm_singleton.mp hperm

theorem retentions_own (o : Order) (p : Parser) :
    retentions o (ownInternal p) = [(formatRegex "actions".toList, p.builtinDelete)] := by
  rw [retentions, explicitProjects_own]
  rfl

theorem explicitActions_eq (env : Env) (o : Order) (internal : Internal) :
    explicitActions env o internal =
      (retentions o internal).map fun r => generateAction env r.2 r.1 false := by
  rw [retentions, List.map_map]
  rfl

theorem generateDefaults_eq (env : Env) (o : Order) (internal : Internal) :
    generateDefaults env o internal = generateAction env (defaultDelete internal)
      (Text.join ['|'] ((retentions o internal).map Prod.fst ++
        [".searchguard".toList, ".kibana".toList].map formatRegex)) true := by
  rw [retentions, List.map_map]
  rfl

theorem generateAction_inj (env : Env) (exclude : Bool) :
    Function.Injective fun r : Text × Delete => generateAction env r.2 r.1 exclude := by
  intro r r' h
  have hregex := congrArg (fun a : Action => a.pattern.value) h
  have hdelete := congrArg Action.retention h
  exact Prod.ext hregex hdelete

theorem actionsOf_eq_iff (env : Env) (o : Order) (p : Parser) (internal : Internal) :
    actionsOf env o internal = actionsOf env o (ownInternal p) ↔
      retentions o internal = [(formatRegex "actions".toList, p.builtinDelete)] ∧
        defaultDelete internal = p.builtinDelete := by
  rw [← retentions_own o p]
  constructor
  · intro h
    obtain ⟨hexplicit, hdefaults⟩ := List.append_inj' h rfl
    rw [explicitActions_eq, explicitActions_eq] at hexplicit
    have hretention := congrArg Action.retention (List.cons.inj hdefaults).1
    exact ⟨List.map_injective_iff.mpr (generateAction_inj env false) hexplicit, hretention⟩
  · rintro ⟨hretentions, hdefault⟩
    rw [actionsOf, actionsOf, explicitActions_eq, explicitActions_eq, generateDefaults_eq,
      generateDefaults_eq, hretentions, hdefault]
    rfl

end Own

end AggregatedLogging.Curator
