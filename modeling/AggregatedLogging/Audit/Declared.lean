import AggregatedLogging.Audit.Fields

/-! Which lines of the audit log are turned down with the exception of the parser, and
which end in another one. -/
namespace AggregatedLogging.Audit

open Regex Ruby

/-- A result, or the exception `ViaqDockerAuditParserException`. -/
def Declared : Except AuditError α → Prop
  | .ok _ | .error (.parser _) => True
  | .error _ => False

theorem declared_map (f : α → β) (r : Except AuditError α) : Declared (r.map f) ↔ Declared r := by
  cases r with
  | ok a => rfl
  | error e => cases e <;> rfl

/-- The text in front of the inner message has a stamp that is a time, and no key `time`
of its own. -/
def HasTime (metadata : List Text) : Prop :=
  ∃ first stamp parts, metadata = first :: stamp :: parts ∧ valuesOf timeKey parts = [] ∧
    (toF (stampOf stamp)).isInfinite = false

/-- A line for which no other exception is raised: bytes that are text, and a time in
every message of a container engine. -/
def Timed : Line → Prop
  | .broken _ => False
  | .text line =>
    filterVirtControl line = true → ∀ g1 g2, messageParts line = some (g1, g2) → HasTime (words g1)

section Failure

variable {hostname : Option Text} {clock : Clock}

theorem declared_metadata (metadata : List Text) (docker : Entries) :
    Declared ((parseMetadata metadata).bind fun host => normalize hostname clock host docker) ↔
      HasTime metadata := by
  rcases metadata with _ | ⟨first, _ | ⟨stamp, parts⟩⟩
  · simp [parseMetadata, Except.bind, Declared, HasTime]
  · simp [parseMetadata, Except.bind, Declared, HasTime]
  · have htime : HasTime (first :: stamp :: parts) ↔
        valuesOf timeKey parts = [] ∧ (toF (stampOf stamp)).isInfinite = false := by
      simp [HasTime]
    rw [parseMetadata, Except.bind, ← hostEntries, normalize_hostEntries, htime]
    by_cases hkey : valuesOf timeKey parts = []
    · rw [if_neg (not_not.mpr hkey)]
      cases (toF (stampOf stamp)).isInfinite <;> simp [Declared, hkey]
    · simp [Declared, hkey]

theorem declared_parseText (line : Text) :
    Declared (parseText hostname clock line) ↔ Timed (.text line) := by
  rw [Timed]
  by_cases hline : filterVirtControl line = true
  · cases hparts : messageParts line with
    | none => simp [parseText, hline, hparts, Declared]
    | some p =>
      obtain ⟨g1, g2⟩ := p
      have hmap : (parseMetadata (words g1)).bind (fun host =>
          (normalize hostname clock host (parseMsg (words g2))).map some) =
          ((parseMetadata (words g1)).bind fun host =>
            normalize hostname clock host (parseMsg (words g2))).map some := by
        cases parseMetadata (words g1) <;> rfl
      rw [parseText_parts hline hparts, hmap, declared_map, declared_metadata]
      simp [hline]
  · simp [parseText, hline, Declared]

theorem declared_parseAuditLine (line : Line) :
    Declared (parseAuditLine hostname clock line) ↔ Timed line := by
  cases line with
  | text line => exact declared_parseText line
  | broken s => exact Iff.rfl

theorem parse_time {line : Line} {event : Event}
    (h : parseAuditLine hostname clock line = .ok (some event)) :
    (clock.parse event.time).isSome = true := by
  cases line with
  | text line =>
    obtain ⟨-, g1, g2, first, stamp, parts, -, -, -, hfinite, rfl⟩ := parseText_eq_some.mp h
    exact clock.parse_rfc3339 _ hfinite
  | broken s => cases h

theorem yields_iff (line : Line) :
    (∃ out, parse hostname clock line = .ok out) ↔
      Declared (parseAuditLine hostname clock line) := by
  rw [parse]
  cases hresult : parseAuditLine hostname clock line with
  | error e => cases e <;> simp [Declared]
  | ok result =>
    cases result with
    | none => simp [Declared]
    | some event =>
      obtain ⟨time, htime⟩ := Option.isSome_iff_exists.mp (parse_time hresult)
      simp [Declared, htime]

end Failure

/-- The parser of a line fails in the declared way only, so that it always yields. -/
structure FailsAsDeclared (hostname : Option Text) (clock : Clock) (line : Line) : Prop where
  declared : Declared (parseAuditLine hostname clock line)
  yields : ∃ out, parse hostname clock line = .ok out

theorem failsAsDeclared_iff (hostname : Option Text) (clock : Clock) (line : Line) :
    FailsAsDeclared hostname clock line ↔ Timed line := by
  constructor
  · intro h
    exact (declared_parseAuditLine line).mp h.declared
  · intro h
    have hdeclared : Declared (parseAuditLine hostname clock line) :=
      (declared_parseAuditLine line).mpr h
    exact ⟨hdeclared, (yields_iff line).mpr hdeclared⟩

def sampleClock : Clock where
  rfc3339 _ := "2017-09-01T13:40:20.029000+00:00".toList
  parse _ := some ⟨1504273220029, -3⟩
  now := ⟨1504273221, 0⟩
  parse_rfc3339 _ _ := rfl

def stampless : Text := "type=VIRT_CONTROL msg='op=exec exe=\"/usr/bin/dockerd-current\"'".toList

theorem not_failsAsDeclared_stampless : ¬ FailsAsDeclared none sampleClock (.text stampless) := by
  intro h
  have hresult : parseText none sampleClock stampless = .error .noMethod := by decide +kernel
  have hdeclared := h.declared
  rw [parseAuditLine, hresult] at hdeclared
  exact hdeclared

end AggregatedLogging.Audit
