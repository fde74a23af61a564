import AggregatedLogging.Throttle.Coverage
import AggregatedLogging.Throttle.Holdings
import AggregatedLogging.Fluentd.OperationsTags

/-! The operations projects, as the start script and as the generator read them
from one variable. -/
namespace AggregatedLogging.Throttle

open Glob Fluentd
open Python (Dict Key Order)

def opsVariable : Text := "OCP_OPERATIONS_PROJECTS".toList

/-- The variable as the generator sees it.  The script assigns its default to an
empty variable, which is passed on; a variable that is not set stays so. -/
def exported (shell : Option Text) : Option Text := shell.map fun v => ocpOperationsProjects (some v)

def Words (shell : Option Text) : Prop :=
  ∀ v, shell = some v → v.all (fun c => isLabelChar c || isBlank c) = true

def Apart (env : Env) : Prop := ∀ n, env.contPosFile ≠ env.getContPosFileName n

def MovedToOperations (env : Env) (fs : Files) (f : LogFile) : Prop :=
  ¬ Has fs env.contPosFile f ∧ Has fs (seedPosFile env operations) f

/-- The tags of a container, the globs of the operations source, the excludes of
the default source and the transfer of positions agree. -/
structure SameMeaning (env : Env) (shell : Option Text) (c : Container) (f : LogFile) (w' : World) :
    Prop where
  tags : matchesAny (ocpFluentdTags shell) c.fileTag = true ↔
    (throttleSource env operations).tails f.path = true
  excludes : ((excludedPatterns env operations).any fun g => matchesPath g f.path) = true ↔
    (throttleSource env operations).tails f.path = true
  positions : MovedToOperations env w'.positions f ↔
    (throttleSource env operations).tails f.path = true

theorem splitFrom_eq_wordsFrom {s : Text} (hs : s.all (fun c => isLabelChar c || isBlank c) = true)
    (word : Text) : splitFrom word s = wordsFrom word s := by
  induction s generalizing word with
  | nil => rfl
  | cons c s ih =>
    rw [List.all_cons, Bool.and_eq_true] at hs
    have hc : isSeparator c = isBlank c := by
      have hlabel : isLabelChar c = true ∨ isBlank c = true := by simpa using hs.1
      rcases hlabel with hlabel | hblank
      · have hne (x : Char) (hx : isLabelChar x = false) : c ≠ x := by
          rintro rfl
          rw [hlabel] at hx
          contradiction
        simp [isSeparator, isBlank, hne ' ' (by decide), hne '\t' (by decide), hne '\n' (by decide),
          hne '\r' (by decide), hne (Char.ofNat 11) (by decide), hne (Char.ofNat 12) (by decide)]
      · rw [hblank]
        simp only [isBlank, Bool.or_eq_true, decide_eq_true_eq] at hblank
        rcases hblank with (rfl | rfl) | rfl <;> rfl
    rw [splitFrom, wordsFrom, hc, ih hs.2, ih hs.2]

theorem all_of_mem_wordsFrom {q : Char → Bool} {word s : Text} (hword : word.all q = true)
    (hs : s.all (fun c => q c || isBlank c) = true) {p : Text} (hp : p ∈ wordsFrom word s) :
    p.all q = true := by
  induction s generalizing word with
  | nil =>
    rw [wordsFrom] at hp
    split at hp
    · contradiction
    · rw [List.mem_singleton.mp hp]
      exact hword
  | cons c s ih =>
    rw [List.all_cons, Bool.and_eq_true] at hs
    rw [wordsFrom] at hp
    split at hp
    · split at hp
      · exact ih rfl hs.2 hp
      · rcases List.mem_cons.mp hp with rfl | hp
        · exact hword
        · exact ih rfl hs.2 hp
    · rename_i hblank
      have hc : q c = true := by simpa [hblank] using hs.1
      refine ih ?_ hs.2 hp
      rw [List.all_append, hword, List.all_cons, hc]
      rfl

theorem words_value {shell : Option Text} (h : Words shell) :
    (ocpOperationsProjects shell).all (fun c => isLabelChar c || isBlank c) = true := by
  unfold ocpOperationsProjects
  split
  · decide
  · decide
  · rename_i v _
    exact h v rfl

theorem operationsProjects_label {shell : Option Text} (h : Words shell) :
    ∀ p ∈ operationsProjects shell, p.all isLabelChar = true := fun _ hp =>
  all_of_mem_wordsFrom rfl (words_value h) hp

theorem operationsTag_iff {shell : Option Text} (h : Words shell) (c : Container) :
    matchesAny (ocpFluentdTags shell) c.fileTag = true ↔
      ∃ p ∈ operationsProjects shell, standsFor p c.ns := by
  have hlabel := operationsProjects_label h
  have hns : '.' ∉ c.ns := not_mem_label c.ns_valid (by decide)
  rw [covers_fileTag (isWordChar_of_label hlabel)]
  exact exists_congr fun p => and_congr_right fun hp => exactly_projectWord (hlabel p hp) hns

section Meaning

variable {env : Env} {shell : Option Text}

theorem defaultOpsProjects_eq (h : Words shell) (henv : env opsVariable = exported shell) :
    env.defaultOpsProjects =
      if shell.isSome then operationsProjects shell
      else ["default".toList, "openshift".toList, "openshift-infra".toList, "kube-system".toList] := by
  have hvariable : env "OCP_OPERATIONS_PROJECTS".toList = exported shell := henv
  rw [Env.defaultOpsProjects, hvariable]
  cases shell with
  | none => rfl
  | some v =>
    have hwords := words_value h
    exact splitFrom_eq_wordsFrom hwords []

theorem defaultOpsProjects_plain (h : Words shell) (henv : env opsVariable = exported shell) :
    ∀ p ∈ env.defaultOpsProjects, isPlain p = true ∧ '.' ∉ p := by
  have hplain {p : Text} (hp : p.all isLabelChar = true) : isPlain p = true ∧ '.' ∉ p := by
    cases p with
    | nil => exact ⟨rfl, List.not_mem_nil⟩
    | cons c p => exact isPlain_of_isLabel hp
  intro p hp
  rw [defaultOpsProjects_eq h henv] at hp
  split at hp
  · exact hplain (operationsProjects_label h p hp)
  · apply hplain
    simp only [List.mem_cons, List.not_mem_nil, or_false] at hp
    rcases hp with rfl | rfl | rfl | rfl <;> decide

theorem covered_of_listed (h : Words shell) (henv : env opsVariable = exported shell) {ns : Text}
    (hns : ns ∈ env.defaultOpsProjects) : ∃ p ∈ operationsProjects shell, standsFor p ns := by
  rw [defaultOpsProjects_eq h henv] at hns
  cases shell with
  | none =>
    have hcovered : ∀ n ∈ ["default".toList, "openshift".toList, "openshift-infra".toList,
        "kube-system".toList], ∃ p ∈ operationsProjects none, standsFor p n := by decide
    exact hcovered ns hns
  | some v =>
    refine ⟨ns, hns, ?_⟩
    unfold standsFor
    split
    · exact List.prefix_refl ns
    · rfl

/-- The three readings of the variable agree on a namespace exactly when the
script does not cover it by a prefix alone. -/
theorem sameMeaning_iff (hdir : env.contLogDir = "/var/log/containers".toList) (hapart : Apart env)
    (hwords : Words shell) (henv : env opsVariable = exported shell) {c : Container} {f : LogFile}
    (hns : c.ns = f.ns) {w : World} (hrendered : Rendered w.positions)
    (hhas : Has w.positions env.contPosFile f) (file : Text) :
    ∃ w', seedFile env file operations w = .ok w' ∧ (SameMeaning env shell c f w' ↔
      ((∃ p ∈ operationsProjects shell, standsFor p f.ns) → f.ns ∈ env.defaultOpsProjects)) := by
  have hplain := defaultOpsProjects_plain hwords henv
  have hnamed : Named env operations := ⟨by decide, fun p hp => (hplain p hp).1⟩
  have hne : env.contPosFile ≠ seedPosFile env operations := by
    rw [seedPosFile, if_pos rfl]
    exact hapart _
  obtain ⟨hmoves, -⟩ := movedBy_transfers hne
    (fun p hp => ⟨(hplain p hp).1, .inl (hplain p hp).2⟩) hrendered
  have htails : (throttleSource env operations).tails f.path = true ↔
      f.ns ∈ env.defaultOpsProjects :=
    throttleSource_tails hdir (by decide) (fun p hp => (hplain p hp).1) f
  have hexcludes : ((excludedPatterns env operations).any fun g => matchesPath g f.path) = true ↔
      f.ns ∈ env.defaultOpsProjects :=
    excludedPatterns_match hdir (by decide) (fun p hp => (hplain p hp).1) f
  have htags := operationsTag_iff hwords c
  rw [hns] at htags
  refine ⟨_, seedFile_ok (hnamed.seedable w) file, ?_⟩
  have hmoved : MovedToOperations env (movedBy env operations w.positions) f ↔
      f.ns ∈ env.defaultOpsProjects := by
    rw [MovedToOperations, hmoves.source, hmoves.dest, not_and, not_not]
    change (_ → f.ns ∈ env.defaultOpsProjects) ∧ (_ ∨ _ ∧ f.ns ∈ env.defaultOpsProjects) ↔ _
    exact ⟨fun h => h.1 hhas, fun h => ⟨fun _ => h, .inr ⟨hhas, h⟩⟩⟩
  constructor
  · intro h hcovered
    exact htails.mp (h.tags.mp (htags.mpr hcovered))
  · intro h
    constructor
    · rw [htags, htails]
      exact ⟨h, covered_of_listed hwords henv⟩
    · rw [hexcludes, htails]
    · rw [htails]
      exact hmoved

end Meaning

theorem apart_plainEnv : Apart plainEnv := by
  intro n h
  have hnext : some 's' = some '-' := congrArg (fun s : Text => (s.drop 21).head?) h
  contradiction

def sampleContainer (ns : Text) (h : isLabel ns = true) : Container where
  pod := "default.web-1".toList
  ns := ns
  name := "kube-proxy".toList
  id := "0123456789ab".toList
  hash := "a67f366".toList
  uid := "26c51a61-2835-11e6".toList
  attempt := "0".toList
  pod_valid := Eq.refl true
  ns_valid := h
  name_valid := Eq.refl true
  id_valid := Eq.refl true
  hash_valid := Eq.refl true
  uid_valid := Eq.refl true
  attempt_valid := Eq.refl true

def positionedWorld (e : Entry) : World where
  positions := Files.write Dict.empty plainEnv.contPosFile (render [e])
  conf := Dict.empty
  defaultInput := none
  asked := 0

theorem rendered_positionedWorld (e : Entry) : Rendered (positionedWorld e).positions := by
  intro file text h
  rw [positionedWorld, Files.text_write] at h
  split at h
  · exact ⟨[e], (Option.some.inj h).symm⟩
  · contradiction

theorem has_positionedWorld (e : Entry) :
    Has (positionedWorld e).positions plainEnv.contPosFile e.file := by
  have hcontent : (positionedWorld e).positions.content plainEnv.contPosFile = render [e] := by
    rw [Files.content, positionedWorld, Files.text_write, if_pos rfl, Option.getD_some]
  rw [has_iff hcontent]
  exact List.mem_singleton_self e.path

/-- The variable is not set, and the namespace is one that the script's default
covers with `kube-`. -/
def publicEntry : Entry := sampleEntry "kube-public".toList (Eq.refl true) "0f".toList (Eq.refl true)

def publicContainer : Container := sampleContainer "kube-public".toList (Eq.refl true)

theorem words_none : Words none := fun _ => nofun

theorem sameMeaning_iff_public :
    ∃ w', seedFile plainEnv "input.conf".toList operations (positionedWorld publicEntry) = .ok w' ∧
      (SameMeaning plainEnv none publicContainer publicEntry.file w' ↔
        ((∃ p ∈ operationsProjects none, standsFor p publicEntry.file.ns) →
          publicEntry.file.ns ∈ plainEnv.defaultOpsProjects)) :=
  sameMeaning_iff rfl apart_plainEnv words_none rfl rfl (rendered_positionedWorld _)
    (has_positionedWorld _) _

/-- Its records are tagged as operations, but no operations source tails its logs. -/
theorem not_sameMeaning_public :
    ∃ w', seedFile plainEnv "input.conf".toList operations (positionedWorld publicEntry) = .ok w' ∧
      ¬ SameMeaning plainEnv none publicContainer publicEntry.file w' := by
  refine ⟨_, seedFile_ok ⟨by decide, .inr (by decide)⟩ _, fun h => ?_⟩
  have htagged : matchesAny (ocpFluentdTags none) publicContainer.fileTag = true :=
    (operationsTag_iff words_none publicContainer).mpr ⟨"kube-".toList, by decide, by decide⟩
  have htailed := h.tags.mp htagged
  rw [throttleSource_tails rfl (by decide) (by decide)] at htailed
  exact absurd htailed (by decide)

end AggregatedLogging.Throttle
