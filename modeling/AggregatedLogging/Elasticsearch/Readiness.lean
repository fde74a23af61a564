import AggregatedLogging.Elasticsearch.Init

/-! Readiness implies that the initialisation is over exactly when no script fails. -/
namespace AggregatedLogging.Elasticsearch

open Relation

def Phase.pending (files : List InitFile) : Phase → List InitFile
  | .waiting | .timedOut => toRun files
  | .looping rest | .recording _ rest | .appending _ rest => toRun rest
  | .running current rest => current :: toRun rest
  | .finished => []

def Phase.unrecorded : Phase → List InitFile
  | .recording current _ | .appending current _ => [current]
  | _ => []

structure Progressing (files : List InitFile) (s : Init) : Prop where
  scripts : s.ran ++ s.phase.pending files = toRun files
  failures : s.initFailures.getD [] ++ s.phase.unrecorded.map failureLine =
    (failing s.ran).map failureLine
  opened : s.initFailures.isSome = true → failing s.ran ≠ []
  failed : s.failed = !(failing s.ran).isEmpty
  complete : s.initComplete = true → s.phase = .finished

theorem toRun_skip {f : InitFile} (h : f.isFile = false) (rest : List InitFile) :
    toRun (f :: rest) = toRun rest := by
  rw [toRun, List.filter_cons, h]
  rfl

theorem toRun_cons {f : InitFile} (h : f.isFile = true) (rest : List InitFile) :
    toRun (f :: rest) = f :: toRun rest := by
  rw [toRun, List.filter_cons, h]
  rfl

theorem failing_succeed {f : InitFile} (h : f.succeeds = true) (ran : List InitFile) :
    failing (ran ++ [f]) = failing ran := by
  simp [failing, h]

theorem failing_fail {f : InitFile} (h : f.succeeds = false) (ran : List InitFile) :
    failing (ran ++ [f]) = failing ran ++ [f] := by
  simp [failing, h]

theorem failing_of_unrecorded {lines : List Text} {f : InitFile} {ran : List InitFile}
    (h : lines ++ [failureLine f] = (failing ran).map failureLine) : failing ran ≠ [] := by
  intro hnone
  rw [hnone, List.map_nil] at h
  exact List.concat_ne_nil _ _ h

section Invariant

variable {files : List InitFile}

theorem progressing_start : Progressing files {} where
  scripts := rfl
  failures := rfl
  opened := nofun
  failed := rfl
  complete := nofun

theorem InitStep.not_finished {s t : Init} (h : InitStep files s t) : s.phase ≠ .finished := by
  cases h <;> simp_all

theorem Progressing.incomplete {s t : Init} (h : Progressing files s) (hstep : InitStep files s t) :
    s.initComplete ≠ true := fun hc => hstep.not_finished (h.complete hc)

theorem Progressing.moves {s : Init} (h : Progressing files s) {phase : Phase}
    (hstep : InitStep files s { s with phase })
    (hpending : phase.pending files = s.phase.pending files)
    (hunrecorded : phase.unrecorded = s.phase.unrecorded) :
    Progressing files { s with phase } where
  scripts := hpending ▸ h.scripts
  failures := hunrecorded ▸ h.failures
  opened := h.opened
  failed := h.failed
  complete hc := absurd hc (h.incomplete hstep)

theorem Progressing.step {s t : Init} (h : Progressing files s) (hstep : InitStep files s t) :
    Progressing files t := by
  have hscripts := h.scripts
  have hfailures := h.failures
  have hincomplete := h.incomplete hstep
  have hsame := hstep
  cases hstep with
  | portOpen hphase =>
    apply h.moves hsame
    · rw [hphase]
      rfl
    · rw [hphase]
      rfl
  | portClosed hphase =>
    apply h.moves hsame
    · rw [hphase]
      rfl
    · rw [hphase]
      rfl
  | skip hphase hfile =>
    apply h.moves hsame
    · rw [hphase]
      exact (toRun_skip hfile _).symm
    · rw [hphase]
      rfl
  | start hphase hfile =>
    apply h.moves hsame
    · rw [hphase]
      exact (toRun_cons hfile _).symm
    · rw [hphase]
      rfl
  | succeed hphase hok =>
    rw [hphase] at hscripts hfailures
    constructor
    · rw [← hscripts]
      exact List.append_assoc _ _ _
    · rw [failing_succeed hok]
      exact hfailures
    · rw [failing_succeed hok]
      exact h.opened
    · rw [failing_succeed hok]
      exact h.failed
    · exact fun hc => absurd hc hincomplete
  | fail hphase hfail =>
    rw [hphase] at hscripts hfailures
    constructor
    · rw [← hscripts]
      exact List.append_assoc _ _ _
    · rw [failing_fail hfail, List.map_append, ← hfailures]
      simp [Phase.unrecorded]
    · rw [failing_fail hfail]
      exact fun _ => List.concat_ne_nil _ _
    · rw [failing_fail hfail]
      simp
    · exact fun hc => absurd hc hincomplete
  | openFailures hphase =>
    rw [hphase] at hscripts hfailures
    constructor
    · exact hscripts
    · exact hfailures
    · exact fun _ => failing_of_unrecorded hfailures
    · exact h.failed
    · exact fun hc => absurd hc hincomplete
  | record hphase =>
    rw [hphase] at hscripts hfailures
    constructor
    · exact hscripts
    · rw [← hfailures]
      exact List.append_nil _
    · exact fun _ => failing_of_unrecorded hfailures
    · exact h.failed
    · exact fun hc => absurd hc hincomplete
  | complete hphase =>
    rw [hphase] at hscripts hfailures
    constructor
    · exact hscripts
    · exact hfailures
    · exact h.opened
    · exact h.failed
    · exact fun _ => rfl

theorem Progressing.markers {s t : Init} (h : Progressing files s) (hstep : InitStep files s t)
    (hmarked : s.initComplete = true ∨ s.initFailures.isSome = true) :
    t.initComplete = true ∨ t.initFailures.isSome = true := by
  have hfailures := hmarked.resolve_left (h.incomplete hstep)
  cases hstep with
  | openFailures _ => exact .inr rfl
  | record _ => exact .inr rfl
  | _ => exact .inr hfailures

theorem ProbeStep.marked {s : Init} {p q : Probe} (h : ProbeStep s p q) (hq : q = .exited 0) :
    s.initComplete = true ∨ s.initFailures.isSome = true := by
  cases h with
  | ask code => split at hq <;> simp at hq
  | test =>
    split at hq
    · rename_i hcomplete
      exact .inl hcomplete
    · contradiction
  | read =>
    split at hq
    · rename_i hfailures
      exact .inr hfailures
    · simp at hq

theorem Reachable.progressing {s : System} (h : Reachable files s) : Progressing files s.init := by
  induction h with
  | refl => exact progressing_start
  | tail _ hstep ih =>
    cases hstep with
    | init h => exact ih.step h
    | probe _ => exact ih

theorem Reachable.marked {s : System} (h : Reachable files s) (hready : s.probe = .exited 0) :
    s.init.initComplete = true ∨ s.init.initFailures.isSome = true := by
  induction h with
  | refl => contradiction
  | tail hreach hstep ih =>
    cases hstep with
    | init h => exact (Reachable.progressing hreach).markers h (ih hready)
    | probe h => exact h.marked hready

end Invariant

section Ready

variable {files : List InitFile}

theorem Progressing.finished {s : Init} (h : Progressing files s)
    (hfiles : ∀ f ∈ toRun files, f.succeeds = true)
    (hmarked : s.initComplete = true ∨ s.initFailures.isSome = true) : Finished files s := by
  have hscripts := h.scripts
  rcases hmarked with hcomplete | hfailures
  · rw [h.complete hcomplete] at hscripts
    exact ⟨(List.append_nil _).symm.trans hscripts, .inl hcomplete⟩
  · have hnone : failing s.ran = [] := by
      apply List.filter_eq_nil_iff.mpr
      intro f hf
      have hmem : f ∈ toRun files := by
        rw [← hscripts]
        exact List.mem_append_left _ hf
      simp [hfiles f hmem]
    exact absurd hnone (h.opened hfailures)

theorem Progressing.unfinished {s : Init} (h : Progressing files s) {f : InitFile}
    {rest : List InitFile} (hphase : s.phase = .appending f rest) : ¬ Finished files s := by
  rintro ⟨hran, hcomplete | hrecorded⟩
  · rw [h.complete hcomplete] at hphase
    contradiction
  · have hfailures := h.failures
    rw [hphase, hrecorded, Option.getD_some, hran] at hfailures
    have hlength := congrArg List.length hfailures
    rw [List.length_append] at hlength
    change _ + 1 = _ at hlength
    omega

variable (files) in
/-- The loop comes to a script that fails, and to the moment when the file is there
without its line. -/
theorem loop_fails {rest : List InitFile} (hfail : ∃ f ∈ toRun rest, f.succeeds = false) {s : Init}
    (hphase : s.phase = .looping rest) :
    ∃ t f later, ReflTransGen (InitStep files) s t ∧ t.phase = .appending f later ∧
      t.initComplete = s.initComplete ∧ t.initFailures.isSome = true := by
  induction rest generalizing s with
  | nil =>
    obtain ⟨f, hf, -⟩ := hfail
    exact absurd hf List.not_mem_nil
  | cons g rest ih =>
    obtain ⟨f, hf, hfails⟩ := hfail
    cases hfile : g.isFile with
    | false =>
      rw [toRun_skip hfile] at hf
      obtain ⟨t, f', later, hreach, ht⟩ := @ih ⟨f, hf, hfails⟩ { s with phase := .looping rest } rfl
      exact ⟨t, f', later, .head (.skip hphase hfile) hreach, ht⟩
    | true =>
      have hstart := ReflTransGen.single (@InitStep.start files s g rest hphase hfile)
      cases hok : g.succeeds with
      | false =>
        exact ⟨_, g, rest, (hstart.tail (.fail rfl hok)).tail (.openFailures rfl), rfl, rfl, rfl⟩
      | true =>
        rw [toRun_cons hfile] at hf
        have hmem : f ∈ toRun rest := by
          rcases List.mem_cons.mp hf with rfl | hmem
          · rw [hok] at hfails
            contradiction
          · exact hmem
        obtain ⟨t, f', later, hreach, ht⟩ := @ih ⟨f, hmem, hfails⟩
          { s with phase := .looping rest, ran := s.ran ++ [g] } rfl
        exact ⟨t, f', later, (hstart.tail (.succeed rfl hok)).trans hreach, ht⟩

theorem Reachable.of_script {s : Init} (h : ReflTransGen (InitStep files) {} s) :
    Reachable files ⟨s, .asking⟩ := by
  induction h with
  | refl => exact .refl
  | tail _ hstep ih => exact ih.tail (.init hstep)

theorem Reachable.ready {s : Init} (h : ReflTransGen (InitStep files) {} s)
    (hincomplete : s.initComplete = false) (hmarked : s.initFailures.isSome = true) :
    Reachable files ⟨s, .exited 0⟩ := by
  have hask := (Reachable.of_script h).tail (.probe (.ask expectedResponseCode))
  have htest := hask.tail (.probe .test)
  rw [hincomplete] at htest
  have hread := htest.tail (.probe .read)
  rw [hmarked] at hread
  exact hread

/-- A probe that exits with status zero finds every script run and its result
recorded, exactly when no script fails. -/
theorem ready_finished_iff (files : List InitFile) :
    (∀ s, Reachable files s → s.probe = .exited 0 → Finished files s.init) ↔
      ∀ f ∈ toRun files, f.succeeds = true := by
  constructor
  · intro hall f hf
    apply Classical.not_not.mp
    intro hfail
    rw [Bool.not_eq_true] at hfail
    have hphase : ({ phase := .looping files } : Init).phase = .looping files := rfl
    obtain ⟨t, _, _, hreach, hopened, hincomplete, hmarked⟩ :=
      loop_fails files ⟨f, hf, hfail⟩ hphase
    have hready := Reachable.ready (.head (.portOpen rfl) hreach) hincomplete hmarked
    exact (Reachable.progressing hready).unfinished hopened (hall _ hready rfl)
  · intro hfiles s hreach hready
    exact (Reachable.progressing hreach).finished hfiles (Reachable.marked hreach hready)

end Ready

def seedFiles : List InitFile :=
  [⟨"0010-seed-acl".toList, true, false⟩, ⟨"0100-seed-index-templates".toList, true, true⟩]

theorem ready_unfinished_seed :
    ∃ s, Reachable seedFiles s ∧ s.probe = .exited 0 ∧ ¬ Finished seedFiles s.init := by
  have hopen := ReflTransGen.single (@InitStep.portOpen seedFiles {} rfl)
  have hfail := (hopen.tail (.start rfl rfl)).tail (.fail rfl rfl)
  have hrecord := (hfail.tail (.openFailures rfl)).tail (.record rfl)
  refine ⟨_, Reachable.ready hrecord rfl rfl, rfl, fun h => ?_⟩
  have hran := h.ran
  contradiction

end AggregatedLogging.Elasticsearch
