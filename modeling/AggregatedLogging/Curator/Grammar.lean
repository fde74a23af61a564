import AggregatedLogging.Curator.Rules

/-! Which delete nodes the converter takes although they are not of the form that
the documentation gives: one unit with an integer. -/
namespace AggregatedLogging.Curator

open Python

variable {env : Env} {o : Order} {p : Parser} {config : Dict Yaml} {internal : Internal}

/-- One unit with an integer, which is the retention; weeks are counted in days. -/
def OneUnit (delete : Yaml) (retention : Delete) : Prop :=
  ∃ units key unit n, delete.dict? = some units ∧ units.entries = [(key, .int n)] ∧
    allowedUnit key = some unit ∧ retention = unit.convert n

def Grammatical (fields : Dict Yaml) (retention : Delete) : Prop :=
  ∃ delete, fields.get? (.str "delete".toList) = some delete ∧ OneUnit delete retention

/-- Every entry is of the form, and its rule has the retention. -/
structure Enforced (p : Parser) (o : Order) (config : Dict Yaml) : Prop where
  projects : ∀ k ∈ o.keys config, k ≠ .str dotRegex → ∃ node fields proj,
    config.get? k = some node ∧ node.dict? = some fields ∧
      p.assignments o config k = .ok [(k, proj)] ∧ Grammatical fields proj.delete
  regexes : ∀ regex ∈ regexItems config, ∃ fields entry,
    regex.dict? = some fields ∧ p.regexEntry o regex = .ok entry ∧ Grammatical fields entry.2.delete

/-- What the converter reads without an error: no unit at all, as when the node is
missing, more than one unit, and values that `int` makes a number of. -/
inductive Loose (delete : Yaml) : Prop where
  | unitless {units} (hunits : delete.dict? = some units) (hempty : units.entries = [])
  | several {units} (hunits : delete.dict? = some units) (hmany : 2 ≤ units.entries.length)
  | coerced {units key v n} (hunits : delete.dict? = some units) (hv : units.get? key = some v)
      (hn : v.toInt = .ok n) (hnot : v ≠ .int n)

def deleteNodes (o : Order) (config : Dict Yaml) : List Yaml :=
  ((o.keys config).filter (· ≠ .str dotRegex)).filterMap
      (fun k => (config.get? k).bind fun node => node.dict?.map Parser.deleteNode) ++
    (regexItems config).filterMap fun regex => regex.dict?.map Parser.deleteNode

theorem unitCount_units {node : Yaml} {retention : Delete} (h : p.unitCount o node = .ok retention) :
    ∃ units, node.dict? = some units ∧ (∀ key v, units.get? key = some v →
      (∃ unit, allowedUnit key = some unit) ∧ ∃ n, v.toInt = .ok n) := by
  unfold Parser.unitCount at h
  split at h
  · contradiction
  · split at h
    · contradiction
    · rename_i units hunits
      refine ⟨units, hunits, fun key v hv => ?_⟩
      obtain ⟨delete, hstep⟩ := (foldlM_ok h).1 key (Order.mem_keys.mpr (by rw [hv]; rfl))
      unfold unitStep at hstep
      split at hstep
      · contradiction
      · rename_i unit hunit
        obtain ⟨n, hn, -⟩ := map_ok.mp hstep
        rw [hv, Option.getD_some] at hn
        exact ⟨⟨unit, hunit⟩, n, builtin_ok.mp hn⟩

theorem unitCount_single {node : Yaml} {units : Dict Yaml} {key : Key} {n : Int} {unit : TimeUnit}
    (hunits : node.dict? = some units) (hentries : units.entries = [(key, .int n)])
    (hunit : allowedUnit key = some unit) : p.unitCount o node = .ok (unit.convert n) := by
  have hkeys : o.keys units = [key] := by
    rw [Order.keys, Dict.inserted, hentries]
    exact List.perm_singleton.mp (o.perm [key])
  have hget : units.get? key = some (.int n) := by
    rw [Dict.get?, hentries, List.lookup_cons_self]
  unfold Parser.unitCount
  split
  · contradiction
  · rw [hunits]
    simp only [hkeys, List.foldlM_cons, List.foldlM_nil]
    rw [unitStep, hunit, hget]
    rfl

theorem oneUnit_iff {node : Yaml} {retention : Delete} (h : p.unitCount o node = .ok retention) :
    OneUnit node retention ↔ ¬ Loose node := by
  obtain ⟨units, hunits, hread⟩ := unitCount_units h
  constructor
  · rintro ⟨units', key, unit, n, hunits', hentries, -, -⟩ hloose
    obtain rfl := Option.some.inj (hunits.symm.trans hunits')
    cases hloose with
    | unitless hu hempty =>
      obtain rfl := Option.some.inj (hunits.symm.trans hu)
      rw [hentries] at hempty
      contradiction
    | several hu hmany =>
      obtain rfl := Option.some.inj (hunits.symm.trans hu)
      rw [hentries] at hmany
      contradiction
    | coerced hu hv hn hnot =>
      obtain rfl := Option.some.inj (hunits.symm.trans hu)
      rw [Dict.get?, hentries, List.lookup_cons] at hv
      split at hv
      · obtain rfl := Option.some.inj hv
        exact hnot (congrArg Yaml.int (Except.ok.inj hn))
      · contradiction
  · intro hloose
    rcases hentries : units.entries with _ | ⟨⟨key, v⟩, _ | ⟨e, rest⟩⟩
    · exact absurd (.unitless hunits hentries) hloose
    · have hget : units.get? key = some v := by rw [Dict.get?, hentries, List.lookup_cons_self]
      obtain ⟨⟨unit, hunit⟩, n, hn⟩ := hread key v hget
      have hint : v = .int n := by
        by_contra hnot
        exact hloose (.coerced hunits hget hn hnot)
      rw [hint] at hentries
      rw [unitCount_single hunits hentries hunit] at h
      exact ⟨units, key, unit, n, hunits, hentries, hunit, (Except.ok.inj h).symm⟩
    · refine absurd (.several hunits ?_) hloose
      rw [hentries]
      simp

theorem grammatical_iff {fields : Dict Yaml} {retention : Delete}
    (h : p.unitCount o (Parser.deleteNode fields) = .ok retention) :
    Grammatical fields retention ↔ ¬ Loose (Parser.deleteNode fields) := by
  rw [← oneUnit_iff h, Grammatical, Parser.deleteNode]
  cases fields.get? (.str "delete".toList) with
  | none =>
    refine iff_of_false ?_ ?_
    · rintro ⟨_, hnone, -⟩
      contradiction
    · rintro ⟨units, key, unit, n, hunits, hentries, -⟩
      obtain rfl := Option.some.inj hunits
      contradiction
  | some delete =>
    constructor
    · rintro ⟨_, hdelete, hunit⟩
      obtain rfl := Option.some.inj hdelete
      exact hunit
    · exact fun hunit => ⟨delete, rfl, hunit⟩

theorem project_grammatical (hcreate : p.createInternalRepresentation o config = .ok internal)
    {k : Key} (hk : k ∈ o.keys config) (hregex : k ≠ .str dotRegex) :
    (∃ node fields proj, config.get? k = some node ∧ node.dict? = some fields ∧
        p.assignments o config k = .ok [(k, proj)] ∧ Grammatical fields proj.delete) ↔
      ∀ node fields, config.get? k = some node → node.dict? = some fields →
        ¬ Loose (Parser.deleteNode fields) := by
  have hassign := assignments_entriesOf hcreate hk
  obtain ⟨proj, hentries, hfrom⟩ := entriesOf_project hcreate hk hregex
  obtain ⟨node, fields, hnode, hfields, hdelete⟩ := hfrom.delete
  rw [hentries] at hassign
  constructor
  · rintro ⟨node', fields', proj', hnode', hfields', hassign', hgrammar⟩ node'' fields'' hnode'' hfields''
    obtain rfl := Option.some.inj (hnode.symm.trans hnode')
    obtain rfl := Option.some.inj (hnode.symm.trans hnode'')
    obtain rfl := Option.some.inj (hfields.symm.trans hfields')
    obtain rfl := Option.some.inj (hfields.symm.trans hfields'')
    have hproj := Except.ok.inj (hassign.symm.trans hassign')
    rw [← (Prod.mk.inj (List.cons.inj hproj).1).2] at hgrammar
    exact (grammatical_iff hdelete).mp hgrammar
  · intro hloose
    exact ⟨node, fields, proj, hnode, hfields, hassign,
      (grammatical_iff hdelete).mpr (hloose node fields hnode hfields)⟩

theorem regex_grammatical {regex : Yaml} {entry : Key × Project}
    (hentry : p.regexEntry o regex = .ok entry) :
    (∃ fields entry, regex.dict? = some fields ∧ p.regexEntry o regex = .ok entry ∧
        Grammatical fields entry.2.delete) ↔
      ∀ fields, regex.dict? = some fields → ¬ Loose (Parser.deleteNode fields) := by
  obtain ⟨fields, hfields, hdelete⟩ := regexEntry_delete hentry
  constructor
  · rintro ⟨fields', entry', hfields', hentry', hgrammar⟩ fields'' hfields''
    obtain rfl := Option.some.inj (hfields.symm.trans hfields')
    obtain rfl := Option.some.inj (hfields.symm.trans hfields'')
    obtain rfl := Except.ok.inj (hentry.symm.trans hentry')
    exact (grammatical_iff hdelete).mp hgrammar
  · intro hloose
    exact ⟨fields, entry, hfields, hentry, (grammatical_iff hdelete).mpr (hloose fields hfields)⟩

theorem forall_deleteNodes {motive : Yaml → Prop} : (∀ node ∈ deleteNodes o config, motive node) ↔
    (∀ k ∈ o.keys config, k ≠ .str dotRegex → ∀ node fields, config.get? k = some node →
        node.dict? = some fields → motive (Parser.deleteNode fields)) ∧
      ∀ regex ∈ regexItems config, ∀ fields, regex.dict? = some fields →
        motive (Parser.deleteNode fields) := by
  unfold deleteNodes
  simp only [List.forall_mem_append, List.mem_filterMap, List.mem_filter, decide_eq_true_eq,
    Option.bind_eq_some_iff, Option.map_eq_some_iff]
  constructor
  · rintro ⟨hprojects, hregexes⟩
    exact ⟨fun k hk hregex node fields hnode hfields =>
        hprojects _ ⟨k, ⟨hk, hregex⟩, node, hnode, fields, hfields, rfl⟩,
      fun regex hregex fields hfields => hregexes _ ⟨regex, hregex, fields, hfields, rfl⟩⟩
  · rintro ⟨hprojects, hregexes⟩
    constructor
    · rintro _ ⟨k, ⟨hk, hregex⟩, node, hnode, fields, hfields, rfl⟩
      exact hprojects k hk hregex node fields hnode hfields
    · rintro _ ⟨regex, hregex, fields, hfields, rfl⟩
      exact hregexes regex hregex fields hfields

def twoUnitsNode : List (Key × Yaml) :=
  [(.str "delete".toList, .map [(.str "days".toList, .int 1), (.str "months".toList, .int 2)])]

end AggregatedLogging.Curator
