import AggregatedLogging.Curator.Defects
import AggregatedLogging.Curator.DefaultAction

/-! The exit status protocol between the converter and `run.sh`. -/
namespace AggregatedLogging.Curator

open Python

def Failure.isValueError (e : Failure) : Bool := e.errorClass = .valueError

/-- The defect `d` is why the computation fails, and none is there when it does
not fail. -/
def Explains (d : Option Defect) (r : Except Failure α) : Prop :=
  (error? r).map Failure.isValueError = d.map Defect.reported

namespace Explains

variable {α β : Type} {d d' : Option Defect}

theorem ok (a : α) : Explains none (.ok a : Except Failure α) := rfl

theorem error {e : Failure} {d : Defect} (h : e.isValueError = d.reported) :
    Explains (some d) (.error e : Except Failure α) := congrArg some h

theorem map {r : Except Failure α} (h : Explains d r) (f : α → β) : Explains d (r.map f) := by
  rwa [Explains, error?_map]

theorem bind {x : Except Failure α} {f : α → Except Failure β} (h : Explains d x)
    (hf : ∀ a, x = .ok a → Explains d' (f a)) : Explains (d.or d') (x >>= f) := by
  cases x with
  | error e =>
    cases d with
    | none => contradiction
    | some c => exact h
  | ok a =>
    cases d with
    | none => exact hf a rfl
    | some c => contradiction

theorem bind_pure {x : Except Failure α} (h : Explains d x) (f : α → β) :
    Explains d (x >>= fun a => pure (f a)) := by
  rwa [Explains, error?_bind_pure]

theorem findSome {l : List α} {f : α → Except Failure β} {g : α → Option Defect}
    (h : ∀ x ∈ l, Explains (g x) (f x)) :
    (l.findSome? fun x => error? (f x)).map Failure.isValueError =
      (l.findSome? g).map Defect.reported := by
  induction l with
  | nil => rfl
  | cons x l ih =>
    rw [List.forall_mem_cons] at h
    have hx := h.1
    unfold Explains at hx
    rw [List.findSome?_cons, List.findSome?_cons]
    cases hf : error? (f x) with
    | none =>
      cases hg : g x with
      | none => exact ih h.2
      | some c => simp [hf, hg] at hx
    | some e =>
      cases hg : g x with
      | none => simp [hf, hg] at hx
      | some c => rwa [hf, hg] at hx

theorem mapM {l : List α} {f : α → Except Failure β} {g : α → Option Defect}
    (h : ∀ x ∈ l, Explains (g x) (f x)) : Explains (l.findSome? g) (l.mapM f) := by
  rw [Explains, error?_mapM]
  exact findSome h

theorem forM {l : List α} {f : α → Except Failure PUnit} {g : α → Option Defect}
    (h : ∀ x ∈ l, Explains (g x) (f x)) : Explains (l.findSome? g) (l.forM f) := by
  rw [Explains, error?_forM]
  exact findSome h

theorem foldlM {l : List α} {f : α → Except Failure β} {g : α → Option Defect}
    (h : ∀ x ∈ l, Explains (g x) (f x)) (b : β) :
    Explains (l.findSome? g) (l.foldlM (fun _ x => f x) b) := by
  rw [Explains, error?_foldlM]
  exact findSome h

end Explains

theorem explains_int (v : Yaml) : Explains (countDefect v) (builtin v.toInt) := by
  cases v with
  | float x => cases x <;> rfl
  | str s =>
    simp only [countDefect, Yaml.toInt]
    cases intOfLoaded s <;> rfl
  | _ => rfl

theorem explains_str (v : Yaml) : Explains (timezoneDefect v) (builtin v.toStr) := by
  cases v with
  | str s =>
    simp only [timezoneDefect, Yaml.toStr]
    split <;> rfl
  | _ => rfl

theorem explains_envInt (value : Option Text) (default : Int) :
    Explains (variableDefect value) (envInt value default) := by
  cases value with
  | none => rfl
  | some s =>
    simp only [variableDefect, envInt]
    cases intOfText s <;> rfl

theorem explains_init (env : Env) : Explains (environmentDefect env) (Parser.init env) := by
  refine (explains_envInt env.defaultDays 31).bind fun _ _ => ?_
  exact (explains_envInt env.runHour 0).bind fun _ _ =>
    (explains_envInt env.runMinute 0).bind_pure _

theorem explains_unitStep (units : Dict Yaml) (key : Key) :
    Explains (unitDefect units key) (unitStep units key) := by
  unfold unitDefect unitStep
  cases allowedUnit key with
  | none => rfl
  | some unit => exact (explains_int _).map _

theorem explains_unitCount (p : Parser) (o : Order) (node : Yaml) :
    Explains (deleteDefect o node) (p.unitCount o node) := by
  cases node with
  | map entries => exact Explains.foldlM (fun key _ => explains_unitStep _ key) _
  | _ => rfl

theorem explains_scheduleField (node : Dict Yaml) (key : Text) (default : α)
    {read : Yaml → Except ErrorClass α} {defect : Yaml → Option Defect}
    (h : ∀ v, Explains (defect v) (builtin (read v))) :
    Explains (fieldDefect node key defect) (Parser.scheduleField node key default read) := by
  unfold fieldDefect Parser.scheduleField
  cases node.get? (.str key) with
  | none => rfl
  | some v => exact h v

theorem explains_schedule (p : Parser) (node : Dict Yaml) :
    Explains (scheduleDefect node) (p.schedule node) := by
  refine (explains_scheduleField node _ p.runhour explains_int).bind fun _ _ => ?_
  exact (explains_scheduleField node _ p.runminute explains_int).bind fun _ _ =>
    (explains_scheduleField node _ p.timezone explains_str).bind_pure _

theorem explains_regexEntry (p : Parser) (o : Order) (regex : Yaml) :
    Explains (regexDefect o regex) (p.regexEntry o regex) := by
  cases regex with
  | map entries =>
    simp only [regexDefect, Parser.regexEntry, Yaml.dict?]
    split
    · rfl
    · refine (explains_unitCount p o _).bind fun _ _ => ?_
      cases (((Dict.ofList entries).get? (.str "pattern".toList)).getD .null).key? with
      | none => rfl
      | some key => rfl
  | _ => rfl

theorem explains_projectEntry (p : Parser) (o : Order) (project : Key) (node : Yaml) :
    Explains (projectDefect o project node) (p.projectEntry o project node) := by
  cases node with
  | map entries =>
    refine (explains_unitCount p o _).bind fun _ _ => ?_
    split
    · exact (explains_schedule p _).bind_pure _
    · rfl
  | _ => rfl

theorem explains_assignments (p : Parser) (o : Order) (config : Dict Yaml) (project : Key) :
    Explains (entryDefect o config project) (p.assignments o config project) := by
  simp only [entryDefect, Parser.assignments]
  split
  · rfl
  · split
    · cases (config.get? project).getD .null with
      | seq items => exact Explains.mapM fun regex _ => explains_regexEntry p o regex
      | _ => rfl
    · exact (explains_projectEntry p o project _).bind_pure _

theorem explains_validateProject (name : Key) (proj : Project) :
    Explains (nameDefect name proj.rawRegex) (validateProject name proj) := by
  unfold nameDefect validateProject
  split
  · split <;> rfl
  · rcases name with s | items
    · cases s with
      | str s =>
        simp only
        split
        · rfl
        · split
          · rfl
          · split <;> rfl
      | _ => rfl
    · simp only
      split <;> rfl

theorem explains_validateInternalConfig (o : Order) (internal : Internal) :
    Explains ((o.keys internal).findSome? fun k =>
      ((internal.mapValues Project.rawRegex).get? k).bind (nameDefect k))
      (validateInternalConfig o internal) := by
  have hnames : ((projects o internal).findSome? fun p => nameDefect p.1 p.2.rawRegex) =
      (o.keys internal).findSome? fun k =>
        ((internal.mapValues Project.rawRegex).get? k).bind (nameDefect k) := by
    rw [projects]
    induction o.keys internal with
    | nil => rfl
    | cons k ks ih =>
      rw [List.filterMap_cons, List.findSome?_cons, Dict.mapValues_get?]
      cases internal.get? k with
      | none => exact ih
      | some proj =>
        simp only [Option.map_some, Option.bind_some, List.findSome?_cons]
        rw [ih]
  rw [← hnames]
  exact (Explains.forM fun p _ => explains_validateProject p.1 p.2).bind_pure _

theorem regexEntry_name {p : Parser} {o : Order} {regex : Yaml} {entry : Key × Project}
    (h : p.regexEntry o regex = .ok entry) :
    regexKey regex = some entry.1 ∧ entry.2.rawRegex = true := by
  unfold Parser.regexEntry at h
  split at h
  · contradiction
  · rename_i fields hfields
    simp only at h
    split at h
    · contradiction
    · rename_i hcomplete
      obtain ⟨delete, -, h⟩ := bind_ok.mp h
      split at h
      · contradiction
      · rename_i key hkey
        obtain rfl := Except.ok.inj h
        refine ⟨?_, rfl⟩
        cases hpattern : fields.get? (.str "pattern".toList) with
        | none =>
          rw [hpattern] at hcomplete
          exact absurd (Bool.or_true _) hcomplete
        | some v =>
          rw [hpattern, Option.getD_some] at hkey
          rw [regexKey, hfields, Option.bind_some, hpattern, Option.bind_some, hkey]

theorem assignments_names {p : Parser} {o : Order} {config : Dict Yaml} {project : Key}
    {entries : List (Key × Project)} (h : p.assignments o config project = .ok entries) :
    entries.map (fun q => (q.1, q.2.rawRegex)) = entryNames config project := by
  unfold Parser.assignments at h
  simp only at h
  split at h
  · contradiction
  · rename_i htruthy
    split at h
    · rename_i hregex
      rw [entryNames, if_pos hregex]
      cases hnode : config.get? project with
      | none => simp [hnode, Yaml.truthy] at htruthy
      | some node =>
        rw [hnode, Option.getD_some] at h
        cases node with
        | seq items =>
          have hall := mapM_ok.mp h
          clear h hnode htruthy
          induction hall with
          | nil => rfl
          | cons hentry _ ih =>
            obtain ⟨hkey, hraw⟩ := regexEntry_name hentry
            simp only at ih ⊢
            rw [List.map_cons, ih, List.filterMap_cons, hkey, hraw]
            rfl
        | _ => contradiction
    · rename_i hregex
      obtain ⟨entry, hentry, h⟩ := bind_ok.mp h
      obtain rfl := Except.ok.inj h
      rw [entryNames, if_neg hregex]
      unfold Parser.projectEntry at hentry
      split at hentry
      · contradiction
      · obtain ⟨delete, -, hentry⟩ := bind_ok.mp hentry
        split at hentry
        · obtain ⟨schedule, -, hentry⟩ := bind_ok.mp hentry
          obtain rfl := Except.ok.inj hentry
          rfl
        · obtain rfl := Except.ok.inj hentry
          rfl

theorem assigned_names {p : Parser} {o : Order} {config : Dict Yaml} {ks : List Key}
    {assigned : List (List (Key × Project))}
    (h : List.Forall₂ (fun k entries => p.assignments o config k = .ok entries) ks assigned) :
    assigned.flatten.map (fun q => (q.1, q.2.rawRegex)) = ks.flatMap (entryNames config) := by
  induction h with
  | nil => rfl
  | cons hk _ ih =>
    rw [List.flatten_cons, List.map_append, ih, assignments_names hk, List.flatMap_cons]

theorem configNames_eq {p : Parser} {o : Order} {config : Dict Yaml} {internal : Internal}
    (h : p.createInternalRepresentation o config = .ok internal) :
    configNames o config = internal.mapValues Project.rawRegex := by
  obtain ⟨assigned, hassigned, h⟩ := bind_ok.mp h
  obtain rfl := Except.ok.inj h
  rw [configNames, ← assigned_names (mapM_ok.mp hassigned), ← Dict.mapValues_ofList]
  simp only [Parser.seedDefaults, Dict.mapValues_contains]
  split
  · rfl
  · rw [Dict.mapValues_insert]
    rfl

theorem explains_config (p : Parser) (o : Order) (config : Dict Yaml) :
    Explains (configDefect o config)
      (p.createInternalRepresentation o config >>= validateInternalConfig o) := by
  have hcreate : Explains ((o.keys config).findSome? (entryDefect o config))
      (p.createInternalRepresentation o config) :=
    (Explains.mapM fun k _ => explains_assignments p o config k).bind_pure _
  refine hcreate.bind fun internal hinternal => ?_
  have hvalid := explains_validateInternalConfig o internal
  rw [← configNames_eq hinternal] at hvalid
  have hkeys : o.keys internal = o.keys (configNames o config) := by
    rw [configNames_eq hinternal, Order.keys, Order.keys, Dict.mapValues_inserted]
  rwa [hkeys] at hvalid

theorem explains_document (p : Parser) (o : Order) (document : Yaml) :
    Explains (documentDefect o document) (Parser.configOf document >>= fun config =>
      p.createInternalRepresentation o config >>= validateInternalConfig o) := by
  unfold documentDefect Parser.configOf
  split
  · exact explains_config p o .empty
  · cases document with
    | map entries => exact explains_config p o (.ofList entries)
    | _ => rfl

theorem explains_accept (env : Env) (o : Order) (document : Except ErrorClass Yaml) :
    Explains (firstDefect env o document) (accept env o document) := by
  simp only [accept, parse, bind_assoc]
  refine (explains_init env).bind fun p _ => ?_
  cases document with
  | error c => rfl
  | ok document => exact explains_document p o document

def Convertible (lib : YamlLibrary) (env : Env) (o : Order) (text : Text) : Prop :=
  ∃ internal, accept env o (lib.load text) = .ok internal

def WroteActions (lib : YamlLibrary) (env : Env) (o : Order) (text : Text) (r : Run) : Prop :=
  ∃ internal actions, accept env o (lib.load text) = .ok internal ∧
    generate env o internal = .ok actions ∧
    r.writes.getLast? = some (writeLocation env, lib.dump (numbered actions))

/-- What `run.sh` relies on. -/
def StatusProtocol (lib : YamlLibrary) (env : Env) (o : Order) (files : Files) (text : Text) :
    Prop :=
  let r := convert lib env o files
  (r.status = 1 → WroteActions lib env o text r) ∧
    (¬ Convertible lib env o text → r.status = 2 ∧
      r.after files (writeLocation env) = files (writeLocation env) ∧
      curatorActions env r.status = none)

variable {lib : YamlLibrary} {env : Env} {o : Order} {files : Files} {text : Text}

theorem convertConfig_of_accept {internal : Internal}
    (h : accept env o (lib.load text) = .ok internal) :
    (convertConfig lib env o text).status = 1 ∧
      WroteActions lib env o text (convertConfig lib env o text) := by
  have hgenerate := generate_of_accept h
  have hrun : convertConfig lib env o text = ⟨.ok 1, [(writeLocation env,
      lib.dump (numbered (explicitActions env o internal ++
        [generateDefaults env o internal])))]⟩ := by
    simp only [convertConfig, h, (accept_ok.mp h).1, generateFile, hgenerate, List.nil_append]
  rw [hrun]
  exact ⟨rfl, internal, _, h, hgenerate, rfl⟩

theorem convertConfig_of_error {e : Failure} (h : accept env o (lib.load text) = .error e) :
    convertConfig lib env o text =
      if e.isValueError then ⟨.ok 2, []⟩ else ⟨.error e, []⟩ := by
  simp only [convertConfig, h, Failure.isValueError, decide_eq_true_eq]

/-- Status one and no writes break the protocol, whatever the configuration. -/
theorem not_protocol_of_silent (hstatus : (convert lib env o files).status = 1)
    (hwrites : (convert lib env o files).writes = []) : ¬ StatusProtocol lib env o files text := by
  rintro ⟨hwrote, hfailed⟩
  obtain ⟨internal, actions, haccept, -, hlast⟩ := hwrote hstatus
  rw [hwrites] at hlast
  contradiction

/-- The protocol holds exactly when the actions file in place can be examined
and the first defect of the configuration, if any, is a reported one. -/
theorem statusProtocol_iff (hlegacy : legacyText env files = some text)
    (hsupplied : suppliedActions lib env files ≠ .ok true) :
    StatusProtocol lib env o files text ↔
      suppliedActions lib env files = .ok false ∧
        (firstDefect env o (lib.load text)).all Defect.reported = true := by
  cases hactions : suppliedActions lib env files with
  | error c =>
    have hrun : convert lib env o files = ⟨.error (.builtin c), []⟩ := by
      simp only [convert, hactions]
    have hbroken : ¬ StatusProtocol lib env o files text :=
      not_protocol_of_silent (by rw [hrun]; rfl) (by rw [hrun])
    exact iff_of_false hbroken fun h => by cases h.1
  | ok b =>
    cases b with
    | true => contradiction
    | false =>
      have hrun : convert lib env o files = convertConfig lib env o text := by
        simp only [convert, hactions, hlegacy]
      have hexplains := explains_accept env o (lib.load text)
      cases haccept : accept env o (lib.load text) with
      | ok internal =>
        have hnone : firstDefect env o (lib.load text) = none := by
          rw [haccept] at hexplains
          exact Option.map_eq_none_iff.mp hexplains.symm
        obtain ⟨hstatus, hwrote⟩ := convertConfig_of_accept haccept
        refine iff_of_true ⟨fun _ => ?_, fun h => absurd ⟨internal, haccept⟩ h⟩ ⟨rfl, ?_⟩
        · rw [hrun]
          exact hwrote
        · rw [hnone]
          rfl
      | error e =>
        rw [haccept] at hexplains
        obtain ⟨d, hd, hreported⟩ := Option.map_eq_some_iff.mp hexplains.symm
        rw [hd, Option.all_some, hreported]
        have hfails := convertConfig_of_error haccept
        cases hvalue : e.isValueError with
        | true =>
          rw [hvalue, if_pos rfl] at hfails
          refine iff_of_true ⟨fun h => ?_, fun _ => ?_⟩ ⟨rfl, rfl⟩
          · rw [hrun, hfails] at h
            contradiction
          · rw [hrun, hfails]
            exact ⟨rfl, rfl, rfl⟩
        | false =>
          rw [hvalue, if_neg Bool.false_ne_true] at hfails
          have hbroken : ¬ StatusProtocol lib env o files text :=
            not_protocol_of_silent (by rw [hrun, hfails]; rfl) (by rw [hrun, hfails])
          exact iff_of_false hbroken fun h => by cases h.2

def smallLibrary : YamlLibrary where
  load text :=
    if text = "foo:".toList then .ok (.map [(.str "foo".toList, .null)])
    else if text = "foo: {delete: {years: 1}}".toList then
      .ok (.map [(.str "foo".toList,
        .map [(.str "delete".toList, .map [(.str "years".toList, .int 1)])])])
    else .error .yamlError
  dump _ := []

def smallEnv : Env := { legacyConfig := some "config.yaml".toList }

def onlyConfig (text : Text) : Files := fun path =>
  if path = "config.yaml".toList then some text else none

theorem statusProtocol_unknownUnit :
    StatusProtocol smallLibrary smallEnv .insertion (onlyConfig "foo: {delete: {years: 1}}".toList)
      "foo: {delete: {years: 1}}".toList :=
  have hsupplied : suppliedActions smallLibrary smallEnv
      (onlyConfig "foo: {delete: {years: 1}}".toList) = .ok false := rfl
  (statusProtocol_iff rfl (by rw [hsupplied]; simp)).mpr ⟨hsupplied, rfl⟩

/-- An entry without a body raises an exception that is not reported, so the
curator starts although nothing was written. -/
theorem emptyEntry_breaks_protocol :
    legacyText smallEnv (onlyConfig "foo:".toList) = some "foo:".toList ∧
      suppliedActions smallLibrary smallEnv (onlyConfig "foo:".toList) = .ok false ∧
      ¬ StatusProtocol smallLibrary smallEnv .insertion (onlyConfig "foo:".toList)
        "foo:".toList :=
  ⟨rfl, rfl, not_protocol_of_silent rfl rfl⟩

end AggregatedLogging.Curator
