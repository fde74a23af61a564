import AggregatedLogging.Audit.Parse
import AggregatedLogging.Ruby.Hash

/-! What the hashes of an audit line hold: the values of each key, in the order in which
they are merged, and what becomes of them in the event. -/
namespace AggregatedLogging.Audit

open Regex Ruby

def valuesOf (key : Text) (parts : List Text) : List Text :=
  ((parts.filterMap pairOf).filter fun p => p.1 = key).map Prod.snd

def partValue (key part : Text) : Option Text :=
  (pairOf part).bind fun p => if p.1 = key then some p.2 else none

theorem valuesOf_cons (key part : Text) (parts : List Text) :
    valuesOf key (part :: parts) = (partValue key part).toList ++ valuesOf key parts := by
  rw [valuesOf, partValue, List.filterMap_cons]
  cases pairOf part with
  | none => rfl
  | some p =>
    rw [Option.bind_some, List.filter_cons]
    by_cases hp : p.1 = key <;> simp [hp, valuesOf]

theorem lookup_insertOrMerge (key value k : Text) (r : Entries) :
    (insertOrMerge key value r).lookup k =
      if k = key then some ((r.lookup key).elim (.one value) (Field.merge value))
      else r.lookup k := by
  induction r with
  | nil => exact lookup_cons_ite k key (Field.one value) []
  | cons p r ih =>
    obtain ⟨j, f⟩ := p
    rw [insertOrMerge, lookup_cons_ite, lookup_cons_ite]
    by_cases hj : j = key
    · rw [if_pos hj, if_pos hj.symm, lookup_cons_ite, hj]
      by_cases hk : k = key
      · rw [if_pos hk, if_pos hk]
        rfl
      · rw [if_neg hk, if_neg hk, if_neg hk]
    · rw [if_neg hj, if_neg (Ne.symm hj), lookup_cons_ite, ih]
      by_cases hkj : k = j
      · rw [if_pos hkj, if_pos hkj, if_neg (hkj ▸ hj)]
      · rw [if_neg hkj, if_neg hkj]

/-- A field after more values for its key. -/
def mergeAll (f : Option Field) (values : List Text) : Option Field :=
  values.foldl (fun f v => some (f.elim (.one v) (Field.merge v))) f

theorem lookup_insertParts (parts : List Text) (r : Entries) (key : Text) :
    (parts.foldl insertPart r).lookup key = mergeAll (r.lookup key) (valuesOf key parts) := by
  induction parts generalizing r with
  | nil => rfl
  | cons part parts ih =>
    rw [List.foldl_cons, ih, valuesOf_cons, mergeAll, mergeAll, List.foldl_append, insertPart,
      partValue]
    congr 1
    cases pairOf part with
    | none => rfl
    | some p =>
      rw [Option.elim_some, lookup_insertOrMerge, Option.bind_some]
      by_cases hp : key = p.1
      · simp [hp]
      · simp [hp, Ne.symm hp]

/-- The second value goes in front of the first one, all others behind. -/
def fieldOf : List Text → Option Field
  | [] => none
  | [v] => some (.one v)
  | v :: w :: values => some (.many (w :: v :: values))

theorem mergeAll_many (ws values : List Text) :
    mergeAll (some (.many ws)) values = some (.many (ws ++ values)) := by
  induction values generalizing ws with
  | nil => simp [mergeAll]
  | cons v values ih =>
    have := ih (ws ++ [v])
    rw [List.append_assoc] at this
    exact this

theorem mergeAll_none (values : List Text) : mergeAll none values = fieldOf values := by
  cases values with
  | nil => rfl
  | cons v values =>
    cases values with
    | nil => rfl
    | cons w values => exact mergeAll_many [w, v] values

theorem lookup_parseMsg (parts : List Text) (key : Text) :
    (parseMsg parts).lookup key = fieldOf (valuesOf key parts) := by
  rw [parseMsg, lookup_insertParts, ← mergeAll_none]
  rfl

/-- The hash of the host, where `stamp` is the time of the line. -/
def hostEntries (stamp : Text) (parts : List Text) : Entries :=
  parts.foldl insertPart [(timeKey, .one (stampOf stamp))]

theorem lookup_hostEntries {stamp : Text} {parts : List Text} {key : Text} (h : key ≠ timeKey) :
    (hostEntries stamp parts).lookup key = fieldOf (valuesOf key parts) := by
  rw [hostEntries, lookup_insertParts, ← mergeAll_none, lookup_cons_ite, if_neg h]
  rfl

theorem lookup_hostEntries_time (stamp : Text) (parts : List Text) :
    (hostEntries stamp parts).lookup timeKey =
      fieldOf (stampOf stamp :: valuesOf timeKey parts) := by
  rw [hostEntries, lookup_insertParts, ← mergeAll_none, lookup_cons_ite, if_pos rfl]
  rfl

theorem fieldOf_isSome {values : List Text} : (fieldOf values).isSome = true ↔ values ≠ [] := by
  rcases values with _ | ⟨w, _ | ⟨u, values⟩⟩ <;> simp [fieldOf]

section Normalize

variable {hostname : Option Text} {clock : Clock}

theorem normalize_hostEntries (stamp : Text) (parts : List Text) (docker : Entries) :
    normalize hostname clock (hostEntries stamp parts) docker =
      if valuesOf timeKey parts ≠ [] then .error .noMethod
      else if (toF (stampOf stamp)).isInfinite then .error .floatDomain
      else .ok (eventAt hostname clock (toF (stampOf stamp)) (hostEntries stamp parts) docker) := by
  rw [normalize, lookup_hostEntries_time]
  cases valuesOf timeKey parts <;> rfl

theorem parseText_parts {line g1 g2 : Text} (hline : filterVirtControl line = true)
    (hparts : messageParts line = some (g1, g2)) :
    parseText hostname clock line =
      (parseMetadata (words g1)).bind fun host =>
        (normalize hostname clock host (parseMsg (words g2))).map some := by
  rw [parseText, if_pos hline, hparts]
  simp only
  cases parseMetadata (words g1) with
  | error e => rfl
  | ok host =>
    cases hevent : normalize hostname clock host (parseMsg (words g2)) <;>
      simp [bind, Except.bind, Except.map, hevent, pure, Except.pure]

theorem parseText_eq_some {line : Text} {event : Event} :
    parseText hostname clock line = .ok (some event) ↔
      filterVirtControl line = true ∧ ∃ g1 g2 first stamp parts,
        messageParts line = some (g1, g2) ∧ words g1 = first :: stamp :: parts ∧
        valuesOf timeKey parts = [] ∧ (toF (stampOf stamp)).isInfinite = false ∧
        event = eventAt hostname clock (toF (stampOf stamp)) (hostEntries stamp parts)
          (parseMsg (words g2)) := by
  constructor
  · intro h
    have hline : filterVirtControl line = true := by
      by_contra hline
      rw [parseText, if_neg hline] at h
      cases Except.ok.inj h
    cases hparts : messageParts line with
    | none =>
      rw [parseText, if_pos hline, hparts] at h
      contradiction
    | some p =>
      obtain ⟨g1, g2⟩ := p
      rw [parseText_parts hline hparts] at h
      rcases hwords : words g1 with _ | ⟨first, _ | ⟨stamp, parts⟩⟩
      · rw [hwords] at h
        contradiction
      · rw [hwords] at h
        contradiction
      · rw [hwords, parseMetadata, Except.bind, ← hostEntries, normalize_hostEntries] at h
        by_cases htime : valuesOf timeKey parts = []
        · rw [if_neg (not_not.mpr htime)] at h
          by_cases hfinite : (toF (stampOf stamp)).isInfinite = true
          · rw [if_pos hfinite] at h
            contradiction
          · rw [if_neg hfinite] at h
            refine ⟨hline, g1, g2, first, stamp, parts, rfl, hwords, htime,
              eq_false_of_ne_true hfinite, ?_⟩
            exact (Option.some.inj (Except.ok.inj h)).symm
        · rw [if_pos htime] at h
          contradiction
  · rintro ⟨hline, g1, g2, first, stamp, parts, hparts, hwords, htime, hfinite, rfl⟩
    rw [parseText_parts hline hparts, hwords, parseMetadata, Except.bind, ← hostEntries,
      normalize_hostEntries, if_neg (not_not.mpr htime), hfinite]
    rfl

end Normalize

theorem lookup_renamed_none {names : List (Text × Text)} {key : Text}
    (h : key ∉ names.map Prod.fst) (target : Entries) :
    (renamed names target).lookup key = none := by
  induction names with
  | nil => rfl
  | cons m names ih =>
    rw [List.map_cons, List.mem_cons, not_or] at h
    have hrest := ih h.2
    rw [renamed, List.filterMap_cons]
    cases target.lookup m.2 with
    | none => exact hrest
    | some f =>
      rw [Option.map_some, lookup_cons_ite, if_neg h.1]
      exact hrest

theorem lookup_renamed {names : List (Text × Text)} (hnodup : (names.map Prod.fst).Nodup)
    {n : Text × Text} (hn : n ∈ names) (target : Entries) :
    (renamed names target).lookup n.1 = target.lookup n.2 := by
  induction names with
  | nil => contradiction
  | cons m names ih =>
    rw [List.map_cons, List.nodup_cons] at hnodup
    rw [renamed, List.filterMap_cons]
    rcases List.mem_cons.mp hn with rfl | hmem
    · cases hf : target.lookup n.2 with
      | none => exact lookup_renamed_none hnodup.1 target
      | some f => rw [Option.map_some, lookup_cons_ite, if_pos rfl]
    · have hne : n.1 ≠ m.1 := by
        rintro heq
        exact hnodup.1 (heq ▸ List.mem_map_of_mem hmem)
      have hrest := ih hnodup.2 hmem
      cases target.lookup m.2 with
      | none => exact hrest
      | some f =>
        rw [Option.map_some, lookup_cons_ite, if_neg hne]
        exact hrest

theorem mem_renamed {names : List (Text × Text)} {target : Entries} {e : Text × Field} :
    e ∈ renamed names target ↔ ∃ n ∈ names, n.1 = e.1 ∧ target.lookup n.2 = some e.2 := by
  rw [renamed, List.mem_filterMap]
  constructor
  · rintro ⟨n, hn, he⟩
    obtain ⟨f, hf, rfl⟩ := Option.map_eq_some_iff.mp he
    exact ⟨n, hn, rfl, hf⟩
  · rintro ⟨n, hn, hkey, hf⟩
    refine ⟨n, hn, ?_⟩
    rw [hf, Option.map_some, hkey]

theorem hostNames_ne_time : ∀ n ∈ hostNames, n.2 ≠ timeKey := by decide

theorem hostNames_ne_exe : ∀ n ∈ hostNames, n.2 ≠ exeKey := by decide

theorem dockerNames_ne_exe : ∀ n ∈ dockerNames, n.2 ≠ exeKey := by decide

theorem nodup_hostNames : (hostNames.map Prod.fst).Nodup := by decide

theorem nodup_dockerNames : (dockerNames.map Prod.fst).Nodup := by decide

theorem hostExe_notMem : hostExe ∉ hostNames.map Prod.fst := by decide

theorem dockerCommand_notMem : dockerCommand ∉ dockerNames.map Prod.fst := by decide

theorem foldl_dedupStep (exes : List Text) (found : Field × Option Text) :
    exes.foldl dedupStep found =
      (((exes.filter namesDaemon).getLast?.map Field.one).getD found.1,
        (exes.filter fun e => !namesDaemon e).getLast?.or found.2) := by
  induction exes generalizing found with
  | nil => rfl
  | cons e exes ih =>
    rw [List.foldl_cons, ih, dedupStep, List.filter_cons, List.filter_cons]
    cases namesDaemon e with
    | true =>
      rw [if_pos rfl, if_pos rfl, Bool.not_true, if_neg Bool.false_ne_true, List.getLast?_cons,
        Option.map_some, Option.getD_some]
      cases (exes.filter namesDaemon).getLast? <;> rfl
    | false =>
      rw [if_neg Bool.false_ne_true, if_neg Bool.false_ne_true, Bool.not_false, if_pos rfl,
        List.getLast?_cons, Option.some_or]
      cases (exes.filter fun e => !namesDaemon e).getLast? <;> rfl

theorem lookup_optional (key k : Text) (f : Option Field) :
    (optional key f).lookup k = if k = key then f else none := by
  cases f with
  | none => simp [optional]
  | some f => exact lookup_cons_ite k key f []

theorem mem_optional {key : Text} {f : Option Field} {e : Text × Field} :
    e ∈ optional key f ↔ e.1 = key ∧ f = some e.2 := by
  rw [optional, Option.mem_toList, Option.map_eq_some_iff]
  constructor
  · rintro ⟨g, hg, rfl⟩
    exact ⟨rfl, hg⟩
  · rintro ⟨hkey, hf⟩
    exact ⟨e.2, hf, by rw [← hkey]⟩

section Lookup

variable {names : List (Text × Text)} {key : Text} (target : Entries) (f : Option Field)

theorem lookup_named (hnodup : (names.map Prod.fst).Nodup) (hkey : key ∉ names.map Prod.fst)
    {n : Text × Text} (hn : n ∈ names) :
    (renamed names target ++ optional key f).lookup n.1 = target.lookup n.2 := by
  have hne : n.1 ≠ key := by
    rintro heq
    exact hkey (heq ▸ List.mem_map_of_mem hn)
  rw [List.lookup_append, lookup_renamed hnodup hn, lookup_optional, if_neg hne, Option.or_none]

theorem lookup_last (hkey : key ∉ names.map Prod.fst) :
    (renamed names target ++ optional key f).lookup key = f := by
  rw [List.lookup_append, lookup_renamed_none hkey, lookup_optional, if_pos rfl, Option.none_or]

end Lookup

section Events

variable (hostname : Option Text) (clock : Clock) (seconds : Decimal) (host docker : Entries)

theorem lookup_trusted {n : Text × Text} (hn : n ∈ hostNames) :
    (eventAt hostname clock seconds host docker).trusted.lookup n.1 = host.lookup n.2 :=
  lookup_named host (exeOf docker) nodup_hostNames hostExe_notMem hn

theorem lookup_hostExe :
    (eventAt hostname clock seconds host docker).trusted.lookup hostExe = exeOf docker :=
  lookup_last host (exeOf docker) hostExe_notMem

theorem lookup_docker {n : Text × Text} (hn : n ∈ dockerNames) :
    (eventAt hostname clock seconds host docker).docker.lookup n.1 = docker.lookup n.2 :=
  lookup_named docker (commandOf docker) nodup_dockerNames dockerCommand_notMem hn

theorem lookup_dockerCommand :
    (eventAt hostname clock seconds host docker).docker.lookup dockerCommand =
      commandOf docker :=
  lookup_last docker (commandOf docker) dockerCommand_notMem

end Events

def merged : List Text → List Text
  | v :: w :: values => w :: v :: values
  | values => values

theorem perm_merged (values : List Text) : (merged values).Perm values := by
  rcases values with _ | ⟨v, _ | ⟨w, values⟩⟩
  · exact .nil
  · exact .refl [v]
  · exact .swap v w values

theorem exeOf_eq {docker : Entries} {exes : List Text}
    (h : docker.lookup exeKey = fieldOf exes) :
    exeOf docker = (fieldOf exes).map fun f =>
      (((merged exes).filter namesDaemon).getLast?.map Field.one).getD f := by
  rw [exeOf, h]
  rcases exes with _ | ⟨e, _ | ⟨e', exes⟩⟩
  · rfl
  · have hmerged : merged [e] = [e] := rfl
    rw [hmerged, fieldOf, List.filter_cons]
    cases namesDaemon e <;> rfl
  · rw [fieldOf, Option.map_some, Option.map_some, dedupExe, foldl_dedupStep, merged]

theorem commandOf_eq {docker : Entries} {exes : List Text}
    (h : docker.lookup exeKey = fieldOf exes) :
    commandOf docker =
      if exes.length ≤ 1 then none
      else ((merged exes).filter fun e => !namesDaemon e).getLast?.map Field.one := by
  rw [commandOf, h]
  rcases exes with _ | ⟨e, _ | ⟨e', exes⟩⟩
  · rfl
  · rfl
  · rw [fieldOf, Option.bind_some, dedupExe, foldl_dedupStep, Option.or_none, merged, if_neg]
    simp

theorem commandOf_daemons {parts : List Text}
    (h : ∀ e ∈ valuesOf exeKey parts, namesDaemon e = true) : commandOf (parseMsg parts) = none := by
  have hother : (merged (valuesOf exeKey parts)).filter (fun e => !namesDaemon e) = [] := by
    apply List.filter_eq_nil_iff.mpr
    intro e he
    rw [h e ((perm_merged _).mem_iff.mp he)]
    exact Bool.false_ne_true
  rw [commandOf_eq (lookup_parseMsg parts exeKey), hother]
  exact ite_self none

theorem exeOf_pair_perm {parts : List Text} {daemon command : Text}
    (hdaemon : namesDaemon daemon = true) (hcommand : namesDaemon command = false)
    (h : (valuesOf exeKey parts).Perm [daemon, command]) :
    exeOf (parseMsg parts) = some (.one daemon) ∧
      commandOf (parseMsg parts) = some (.one command) := by
  have hlookup := lookup_parseMsg parts exeKey
  have hmerged := (perm_merged (valuesOf exeKey parts)).trans h
  have hnamed : (merged (valuesOf exeKey parts)).filter namesDaemon = [daemon] := by
    have := hmerged.filter namesDaemon
    rw [List.filter_cons, if_pos hdaemon, List.filter_cons, if_neg (by simp [hcommand]),
      List.filter_nil, List.perm_singleton] at this
    exact this
  have hother : (merged (valuesOf exeKey parts)).filter (fun e => !namesDaemon e) = [command] := by
    have := hmerged.filter fun e => !namesDaemon e
    rw [List.filter_cons, if_neg (by simp [hdaemon]), List.filter_cons, if_pos (by simp [hcommand]),
      List.filter_nil, List.perm_singleton] at this
    exact this
  have hlength := h.length_eq
  rw [exeOf_eq hlookup, commandOf_eq hlookup, hnamed, hother, hlength]
  constructor
  · have hsome : (fieldOf (valuesOf exeKey parts)).isSome = true := by
      rw [fieldOf_isSome]
      rintro hnil
      rw [hnil] at hlength
      contradiction
    obtain ⟨f, hf⟩ := Option.isSome_iff_exists.mp hsome
    rw [hf]
    rfl
  · rfl

end AggregatedLogging.Audit
