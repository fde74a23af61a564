import AggregatedLogging.Throttle.Tailing
import Mathlib.Data.List.Perm.Subperm

/-! Every log file is tailed once, unless an operations project is throttled by
itself as well. -/
namespace AggregatedLogging.Throttle

open Fluentd
open Python (Dict Key Order)

def Throttles (d : Document) (project : Text) : Prop := project ∈ (throttled d.parsed).map Prod.fst

def Overlap (env : Env) (d : Document) : Prop :=
  ∃ ns, isLabel ns = true ∧ ns ∈ env.defaultOpsProjects ∧ Throttles d operations ∧ Throttles d ns

def TailedOnce (w : World) : Prop := ∀ f : LogFile, (w.tailers f.path).length = 1

section Sources

variable {env : Env} {clock : Nat → Day} {d : Document}

theorem Tame.named (h : Tame env d) {p : Text × List Setting} (hp : p ∈ throttled d.parsed) :
    Named env p.1 where
  opens := by
    have hslash := not_mem_plain (h.names p hp) (c := '/') (by decide)
    simpa [opensFile] using hslash
  moves := by
    intro q hq
    unfold seedMoves at hq
    split at hq
    · exact h.words q hq
    · rw [List.mem_singleton.mp hq]
      exact h.names p hp

theorem Tame.writable (h : Tame env d) {p : Text × List Setting} (hp : p ∈ throttled d.parsed)
    (w : World) : Writable env w p.1 where
  toSeedable := (h.named hp).seedable w
  fits := h.fits p hp

theorem confOf_sources (asked : Nat) (ps : List (Text × List Setting)) :
    ((confOf env clock asked ps).flatMap fun e => e.2.filterMap Piece.source?) =
      ps.map fun p => throttleSource env p.1 := by
  have hpieces (asked : Nat) (p : Text × List Setting) :
      (throttledPieces env clock asked p).filterMap Piece.source? = [throttleSource env p.1] := by
    have hsettings : (p.2.map Piece.setting).filterMap Piece.source? = [] := by
      rw [List.filterMap_map, List.filterMap_eq_nil_iff]
      intro s _
      rfl
    rw [throttledPieces, List.filterMap_cons]
    simp only [Piece.source?, List.filterMap_append, hsettings, List.nil_append]
    split <;> rfl
  induction ps generalizing asked with
  | nil => rfl
  | cons p ps ih => rw [confOf, List.flatMap_cons, hpieces, ih, List.map_cons, List.singleton_append]

theorem ranWorld_sources (o : Order) {w : World} (hempty : w.conf.entries = []) :
    (ranWorld env clock o d w).sources =
      ((throttled d.parsed).map fun p => throttleSource env p.1) ++ [(defaultInputOf env d).source] := by
  have hfresh : ∀ p ∈ throttled d.parsed, Fresh env w p.1 := by
    intro p _ day
    rw [World.pieces, Dict.get?, hempty]
    rfl
  have hconf := @foldl_conf env clock _ (throttled_nodup d.parsed) w hfresh
  rw [hempty, List.nil_append] at hconf
  rw [World.sources]
  change (List.flatMap _ ((throttled d.parsed).foldl (throttledWorld env clock) w).conf.entries) ++ _ = _
  rw [hconf, confOf_sources]
  rfl

theorem fresh_of_empty {w : World} (hempty : w.conf.entries = []) (project : Text) :
    Fresh env w project := by
  intro day
  rw [World.pieces, Dict.get?, hempty]
  rfl

variable (hdeployed : Deployed env) (htame : Tame env d)

include hdeployed htame

theorem defaultInput_tails (f : LogFile) :
    (defaultInputOf env d).source.tails f.path = true ↔
      ∀ p ∈ throttled d.parsed, ¬ covers env p.1 f.ns := by
  have hall := matchesPath_all hdeployed.dir f
  have hpaths : (defaultInputOf env d).source.paths = [env.contLogDir ++ "/*.log".toList] := by
    change splitPaths env.contLogsPath = _
    rw [hdeployed.logs, hdeployed.dir]
    decide
  have hexcluded : ((defaultInputOf env d).source.excludePath.any fun g => matchesPath g f.path) =
      (throttled d.parsed).any fun p =>
        (excludedPatterns env p.1).any fun g => matchesPath g f.path := List.any_flatMap
  rw [Source.tails, hpaths, hexcluded, List.any_cons, hall, Bool.true_or, Bool.true_and,
    Bool.not_eq_true', List.any_eq_false]
  refine forall₂_congr fun p hp => ?_
  rw [excludedPatterns_match hdeployed.dir (htame.names p hp) htame.words]

theorem tailers_ranWorld (o : Order) {w : World} (hempty : w.conf.entries = []) (f : LogFile) :
    ((ranWorld env clock o d w).tailers f.path).length =
      ((throttled d.parsed).filter fun p => covers env p.1 f.ns).length +
        if ∀ p ∈ throttled d.parsed, ¬ covers env p.1 f.ns then 1 else 0 := by
  have hthrottle : ((throttled d.parsed).filter fun p => (throttleSource env p.1).tails f.path) =
      (throttled d.parsed).filter fun p => covers env p.1 f.ns := by
    apply List.filter_congr
    intro p hp
    rw [Bool.eq_iff_iff, decide_eq_true_eq]
    exact throttleSource_tails hdeployed.dir (htame.names p hp) htame.words f
  have hdefault := defaultInput_tails hdeployed htame f
  rw [World.tailers, ranWorld_sources o hempty, List.filter_append, List.length_append,
    List.filter_map, List.length_map]
  congr 1
  · exact congrArg List.length hthrottle
  · rw [List.filter_cons]
    by_cases h : ∀ p ∈ throttled d.parsed, ¬ covers env p.1 f.ns
    · rw [if_pos h, if_pos (hdefault.mpr h)]
      rfl
    · rw [if_neg h, if_neg fun hd => h (hdefault.mp hd)]
      rfl

omit hdeployed htame in
theorem covers_two {ps : List (Text × List Setting)} (hnodup : (ps.map Prod.fst).Nodup) {ns : Text}
    (hns : isLabel ns = true) :
    1 < (ps.filter fun p => covers env p.1 ns).length ↔
      ns ∈ env.defaultOpsProjects ∧ operations ∈ ps.map Prod.fst ∧ ns ∈ ps.map Prod.fst := by
  have hother : ns ≠ operations := by
    rintro rfl
    exact absurd hns (by decide)
  have hdecide : (fun p : Text × List Setting => decide (covers env p.1 ns)) =
      (fun n => decide (covers env n ns)) ∘ Prod.fst := rfl
  have hlength : (ps.filter fun p => covers env p.1 ns).length =
      ((ps.map Prod.fst).filter fun n => covers env n ns).length := by
    rw [List.filter_map, List.length_map, hdecide]
  rw [hlength]
  generalize ps.map Prod.fst = names at hnodup
  have hmem (n : Text) : n ∈ (names.filter fun n => covers env n ns) ↔
      n ∈ names ∧ covers env n ns := by
    rw [List.mem_filter, decide_eq_true_eq]
  have hops : covers env operations ns ↔ ns ∈ env.defaultOpsProjects := by
    rw [covers, if_pos rfl]
  have hself : covers env ns ns := by
    rw [covers, if_neg hother]
  have honly {n : Text} (h : covers env n ns) : n = operations ∨ n = ns := by
    unfold covers at h
    split at h
    · rename_i hn
      exact .inl hn
    · exact .inr h.symm
  constructor
  · intro h
    have hfiltered := hnodup.filter fun n => decide (covers env n ns)
    match hnames : names.filter fun n => decide (covers env n ns) with
    | [] =>
      rw [hnames] at h
      contradiction
    | [n] =>
      rw [hnames] at h
      contradiction
    | a :: b :: rest =>
      rw [hnames, List.nodup_cons, List.mem_cons, not_or] at hfiltered
      have ha := (hmem a).mp (hnames ▸ List.mem_cons_self)
      have hb := (hmem b).mp (hnames ▸ List.mem_cons_of_mem a List.mem_cons_self)
      rcases honly ha.2 with rfl | rfl
      · rcases honly hb.2 with rfl | rfl
        · exact absurd rfl hfiltered.1.1
        · exact ⟨hops.mp ha.2, ha.1, hb.1⟩
      · rcases honly hb.2 with rfl | rfl
        · exact ⟨hops.mp hb.2, hb.1, ha.1⟩
        · exact absurd rfl hfiltered.1.1
  · rintro ⟨hword, hin, hns'⟩
    have hsub : [operations, ns] ⊆ names.filter fun n => decide (covers env n ns) := by
      intro n hn
      rw [hmem]
      rcases List.mem_cons.mp hn with rfl | hn
      · exact ⟨hin, hops.mpr hword⟩
      · rw [List.mem_singleton.mp hn]
        exact ⟨hns', hself⟩
    have hpair : [operations, ns].Nodup := by simp [Ne.symm hother]
    have := (List.subperm_of_subset hpair hsub).length_le
    rw [List.length_cons, List.length_singleton] at this
    omega

/-- The sources of a run tail every log file once, unless an operations project
is throttled by itself as well. -/
theorem tailedOnce_iff (o : Order) {w : World} (hempty : w.conf.entries = []) :
    ∃ w', run env clock o d w = .ok w' ∧ (TailedOnce w' ↔ ¬ Overlap env d) := by
  refine ⟨_, run_eq (fun p hp => htame.writable hp w) fun p _ => fresh_of_empty hempty p.1, ?_⟩
  have hcount (f : LogFile) : ((ranWorld env clock o d w).tailers f.path).length = 1 ↔
      ¬ 1 < ((throttled d.parsed).filter fun p => covers env p.1 f.ns).length := by
    rw [tailers_ranWorld hdeployed htame o hempty f]
    have hzero : (∀ p ∈ throttled d.parsed, ¬ covers env p.1 f.ns) ↔
        ((throttled d.parsed).filter fun p => covers env p.1 f.ns).length = 0 := by
      rw [List.length_eq_zero_iff, List.filter_eq_nil_iff]
      simp only [decide_eq_true_eq]
    simp only [hzero]
    split <;> omega
  have htwo (f : LogFile) := @covers_two env _ (throttled_nodup d.parsed) f.ns f.ns_valid
  constructor
  · rintro honce ⟨ns, hns, hword, hops, hself⟩
    have := (hcount (sampleLog ns hns)).mp (honce (sampleLog ns hns))
    exact this ((htwo (sampleLog ns hns)).mpr ⟨hword, hops, hself⟩)
  · intro hoverlap f
    rw [hcount, htwo]
    rintro ⟨hword, hops, hself⟩
    exact hoverlap ⟨f.ns, f.ns_valid, hword, hops, hself⟩

end Sources

def plainEnv : Env := fun _ => none

theorem deployed_plainEnv : Deployed plainEnv := ⟨rfl, rfl⟩

def newYear : Day := ⟨"20200101".toList, rfl, by decide⟩

def freshWorld : World := ⟨Dict.empty, Dict.empty, none, 0⟩

def limited (project : Text) : Key × Options :=
  (Key.str project, .hash (Dict.ofList [(Key.str readLinesLimit, .int 10)]))

def overlapDocument : Document := .pairs [limited operations, limited "default".toList]

theorem throttled_overlap : throttled overlapDocument.parsed =
    [(operations, [⟨readLinesLimit, "10".toList⟩]),
      ("default".toList, [⟨readLinesLimit, "10".toList⟩])] := by decide +kernel

theorem tame_overlap : Tame plainEnv overlapDocument := by
  refine ⟨?_, by decide, ?_, ?_⟩
  all_goals
    rw [throttled_overlap]
    decide

theorem tailedOnce_iff_overlap : ∃ w', run plainEnv (fun _ => newYear) .insertion overlapDocument
    freshWorld = .ok w' ∧ (TailedOnce w' ↔ ¬ Overlap plainEnv overlapDocument) :=
  tailedOnce_iff deployed_plainEnv tame_overlap .insertion rfl

/-- Two sources tail the logs of the namespace `default`. -/
theorem not_tailedOnce_overlap : ∃ w', run plainEnv (fun _ => newYear) .insertion overlapDocument
    freshWorld = .ok w' ∧ ¬ TailedOnce w' := by
  refine ⟨_, run_eq (fun p hp => tame_overlap.writable hp _) fun p _ => fresh_of_empty rfl p.1, ?_⟩
  intro honce
  have hcount := honce (sampleLog "default".toList (by decide))
  rw [tailers_ranWorld deployed_plainEnv tame_overlap .insertion rfl, throttled_overlap] at hcount
  have htwo : ((sampleLog "default".toList (by decide)).ns) = "default".toList := rfl
  rw [htwo] at hcount
  exact absurd hcount (by decide)

end AggregatedLogging.Throttle
