import AggregatedLogging.Audit.Declared
import AggregatedLogging.Audit.Rendered

/-! When every value of an event is a single text.  Keys that are repeated become arrays,
and the programs of a line are told apart only if one of them is the daemon. -/
namespace AggregatedLogging.Audit

open Regex Ruby

def Line.parts : Line → Option (Text × Text)
  | .text line => messageParts line
  | .broken _ => none

def Line.hostParts (line : Line) : List Text := line.parts.elim [] fun p => (words p.1).drop 2

def Line.innerParts (line : Line) : List Text := line.parts.elim [] fun p => words p.2

theorem parseAuditLine_eq_some {hostname : Option Text} {clock : Clock} {line : Line}
    {event : Event} (h : parseAuditLine hostname clock line = .ok (some event)) :
    ∃ stamp, event = eventAt hostname clock (toF (stampOf stamp))
      (hostEntries stamp line.hostParts) (parseMsg line.innerParts) := by
  cases line with
  | text line =>
    obtain ⟨-, g1, g2, first, stamp, parts, hparts, hwords, -, -, rfl⟩ := parseText_eq_some.mp h
    refine ⟨stamp, ?_⟩
    rw [Line.hostParts, Line.innerParts, Line.parts, hparts, Option.elim_some, Option.elim_some,
      hwords]
    rfl
  | broken s => cases h

def Field.Single (f : Field) : Prop := ∃ v, f = .one v

/-- The keys of both parts that make up the event are not repeated; programs may be, if
the daemon is one of them. -/
structure Unrepeated (hostParts innerParts : List Text) : Prop where
  host : ∀ n ∈ hostNames, (valuesOf n.2 hostParts).length ≤ 1
  docker : ∀ n ∈ dockerNames, (valuesOf n.2 innerParts).length ≤ 1
  exe : (valuesOf exeKey innerParts).length ≤ 1 ∨
    ∃ e ∈ valuesOf exeKey innerParts, namesDaemon e = true

def containerIdShort : Text := "container_id_short".toList

def hostnameKey : Text := "hostname".toList

/-- Every value is a single text; with host names in the inner message, the short
identifier is one of them. -/
structure FlatSchema (innerParts : List Text) (event : Event) : Prop where
  single : ∀ e ∈ event.trusted ++ event.docker, e.2.Single
  containerId : valuesOf hostnameKey innerParts ≠ [] →
    ∃ v ∈ valuesOf hostnameKey innerParts,
      event.docker.lookup containerIdShort = some (.one v)

theorem single_fieldOf {values : List Text} :
    (∀ f, fieldOf values = some f → f.Single) ↔ values.length ≤ 1 := by
  rcases values with _ | ⟨v, _ | ⟨w, values⟩⟩
  · simp [fieldOf]
  · simp [fieldOf, Field.Single]
  · simp [fieldOf, Field.Single]

theorem single_renamed {names : List (Text × Text)} {target : Entries} {parts : List Text}
    (h : ∀ n ∈ names, target.lookup n.2 = fieldOf (valuesOf n.2 parts)) :
    (∀ e ∈ renamed names target, e.2.Single) ↔
      ∀ n ∈ names, (valuesOf n.2 parts).length ≤ 1 := by
  constructor
  · intro hsingle n hn
    apply single_fieldOf.mp
    intro f hf
    exact hsingle (n.1, f) (mem_renamed.mpr ⟨n, hn, rfl, (h n hn).trans hf⟩)
  · intro hlength e he
    obtain ⟨n, hn, -, hf⟩ := mem_renamed.mp he
    exact single_fieldOf.mpr (hlength n hn) e.2 ((h n hn).symm.trans hf)

theorem single_exeOf (parts : List Text) :
    (∀ f, exeOf (parseMsg parts) = some f → f.Single) ↔
      (valuesOf exeKey parts).length ≤ 1 ∨ ∃ e ∈ valuesOf exeKey parts, namesDaemon e = true := by
  rw [exeOf_eq (lookup_parseMsg parts exeKey)]
  have hmem (e : Text) := (perm_merged (valuesOf exeKey parts)).mem_iff (a := e)
  cases hlast : ((merged (valuesOf exeKey parts)).filter namesDaemon).getLast? with
  | some e =>
    have he := List.mem_of_getLast? hlast
    rw [List.mem_filter, hmem] at he
    have hsingle (f : Field) (g : Field)
        (h : some (((some e).map Field.one).getD g) = some f) : f.Single :=
      ⟨e, (Option.some.inj h).symm⟩
    constructor
    · intro _
      exact .inr ⟨e, he⟩
    · intro _ f hf
      obtain ⟨g, -, hg⟩ := Option.map_eq_some_iff.mp hf
      exact hsingle f g (congrArg some hg)
  | none =>
    rw [List.getLast?_eq_none_iff, List.filter_eq_nil_iff] at hlast
    have hno : ¬ ∃ e ∈ valuesOf exeKey parts, namesDaemon e = true := by
      rintro ⟨e, he, hdaemon⟩
      exact hlast e ((hmem e).mpr he) hdaemon
    simp [hno, single_fieldOf]

theorem single_commandOf (parts : List Text) :
    ∀ f, commandOf (parseMsg parts) = some f → f.Single := by
  intro f hf
  rw [commandOf, Option.bind_eq_some_iff] at hf
  obtain ⟨g, -, hg⟩ := hf
  obtain ⟨c, -, rfl⟩ := Option.map_eq_some_iff.mp hg
  exact ⟨c, rfl⟩

theorem single_optional {key : Text} {f : Option Field} :
    (∀ e ∈ optional key f, e.2.Single) ↔ ∀ g, f = some g → g.Single := by
  constructor
  · intro h g hg
    exact h (key, g) (mem_optional.mpr ⟨rfl, hg⟩)
  · intro h e he
    exact h e.2 (mem_optional.mp he).2

section Schema

variable {hostname : Option Text} {clock : Clock} {line : Line} {event : Event}

theorem single_iff (h : parseAuditLine hostname clock line = .ok (some event)) :
    (∀ e ∈ event.trusted ++ event.docker, e.2.Single) ↔
      Unrepeated line.hostParts line.innerParts := by
  obtain ⟨stamp, rfl⟩ := parseAuditLine_eq_some h
  have hhost : (∀ e ∈ renamed hostNames (hostEntries stamp line.hostParts), e.2.Single) ↔
      ∀ n ∈ hostNames, (valuesOf n.2 line.hostParts).length ≤ 1 :=
    single_renamed fun n hn => lookup_hostEntries (hostNames_ne_time n hn)
  have hdocker : (∀ e ∈ renamed dockerNames (parseMsg line.innerParts), e.2.Single) ↔
      ∀ n ∈ dockerNames, (valuesOf n.2 line.innerParts).length ≤ 1 :=
    single_renamed fun n _ => lookup_parseMsg line.innerParts n.2
  simp only [eventAt, List.forall_mem_append, hhost, hdocker, single_optional, single_exeOf]
  constructor
  · rintro ⟨⟨hhost, hexe⟩, hdocker, -⟩
    exact ⟨hhost, hdocker, hexe⟩
  · rintro ⟨hhost, hdocker, hexe⟩
    exact ⟨⟨hhost, hexe⟩, hdocker, single_commandOf line.innerParts⟩

theorem flatSchema_iff (h : parseAuditLine hostname clock line = .ok (some event)) :
    FlatSchema line.innerParts event ↔ Unrepeated line.hostParts line.innerParts := by
  constructor
  · intro hflat
    exact (single_iff h).mp hflat.single
  · intro hunrepeated
    refine ⟨(single_iff h).mpr hunrepeated, ?_⟩
    intro hne
    have hmem : (containerIdShort, hostnameKey) ∈ dockerNames := by decide
    have hlength := hunrepeated.docker _ hmem
    obtain ⟨stamp, rfl⟩ := parseAuditLine_eq_some h
    have hlookup := lookup_docker hostname clock (toF (stampOf stamp))
      (hostEntries stamp line.hostParts) (parseMsg line.innerParts) hmem
    rw [lookup_parseMsg] at hlookup
    rcases hvalues : valuesOf hostnameKey line.innerParts with _ | ⟨v, _ | ⟨w, values⟩⟩
    · contradiction
    · rw [hvalues] at hlookup
      exact ⟨v, List.mem_cons_self, hlookup⟩
    · rw [hvalues] at hlength
      simp at hlength

end Schema

def sampleTime : Text := "2017-09-01T13:40:20.029000+00:00".toList

def execEvent : Event where
  time := sampleTime
  hostname := none
  trusted := [("PID".toList, .one "14500".toList), ("UID".toList, .one ['0']),
    (hostExe, .one daemonValue)]
  docker := [(containerIdShort, .one "kibana".toList),
    ("container_image".toList, .one "origin".toList), (dockerCommand, .one "entrypoint".toList)]

theorem parse_execLine :
    parseAuditLine none sampleClock (.text execLine.text) = .ok (some execEvent) :=
  execLine.parse_text.mpr ⟨by decide +kernel, by decide +kernel, by decide +kernel⟩

theorem hostParts_text (l : TokenLine) : Line.hostParts (.text l.text) = l.host.map Token.word := by
  rw [Line.hostParts, Line.parts, l.messageParts_text, Option.elim_some, l.words_metadata]
  rfl

theorem innerParts_text (l : TokenLine) :
    Line.innerParts (.text l.text) = l.message.map Token.word := by
  rw [Line.innerParts, Line.parts, l.messageParts_text, Option.elim_some, l.words_inner]

theorem flatSchema_iff_exec : FlatSchema (Line.innerParts (.text execLine.text)) execEvent := by
  refine (flatSchema_iff parse_execLine).mpr ?_
  rw [hostParts_text, innerParts_text]
  exact ⟨by decide +kernel, by decide +kernel, by decide +kernel⟩

def twoHosts : TokenLine :=
  stamped [token 0 "pid".toList "14500".toList (Eq.refl true) (Eq.refl true)]
    [token 0 hostnameKey "kibana".toList (Eq.refl true) (Eq.refl true),
      token 0 hostnameKey "node".toList (Eq.refl true) (Eq.refl true),
      token 0 exeKey daemonValue (Eq.refl true) (Eq.refl true)]
    ⟨_, List.mem_of_getLast? rfl, ['"'], ['"'], rfl⟩

/-- The short identifier is an array of them. -/
theorem not_flatSchema_twoHosts :
    ∃ event, parseAuditLine none sampleClock (.text twoHosts.text) = .ok (some event) ∧
      event.docker.lookup containerIdShort = some (.many ["node".toList, "kibana".toList]) ∧
      ¬ FlatSchema (Line.innerParts (.text twoHosts.text)) event := by
  have hevent : parseAuditLine none sampleClock (.text twoHosts.text) = .ok (some
      ⟨sampleTime, none, [("PID".toList, .one "14500".toList), (hostExe, .one daemonValue)],
        [(containerIdShort, .many ["node".toList, "kibana".toList])]⟩) :=
    twoHosts.parse_text.mpr ⟨by decide +kernel, by decide +kernel, by decide +kernel⟩
  refine ⟨_, hevent, by decide +kernel, ?_⟩
  intro h
  obtain ⟨v, hv⟩ := h.single (containerIdShort, .many ["node".toList, "kibana".toList]) (by simp)
  cases hv

end AggregatedLogging.Audit
