import AggregatedLogging.Fluentd.Restarts

/-! A container that is started with one environment after the other: what the earlier
starts have left below `CFG_DIR`. -/
namespace AggregatedLogging.Fluentd.StartUp

open Calls Shell Overlay

section Switches

/-- A section that `run.sh` switches off, and what it leaves in its place. -/
structure Switch where
  name : String
  off : Options → Bool
  entry : Option (List Text)

def oneOutput (o : Options) : Bool :=
  o.muxClientMode = [] && elasticsearchOutputs o.toSetup = 1

def switches : List Switch :=
  [⟨"input-pre-systemd.conf", fun o => o.useMux, some []⟩,
    ⟨"output-operations.conf", oneOutput, some []⟩,
    ⟨"filter-pre-force-utf8.conf", fun o => !o.enableUtf8Filter, some []⟩,
    ⟨"filter-exclude-journal-debug.conf", fun o => o.collectJournalDebugLogs, some []⟩,
    ⟨"input-pre-prometheus-metrics.conf", fun o => !o.enablePrometheusEndpoint, none⟩]

variable {f : ConfigFile} {off : Bool} {entry : Option (List Text)}

theorem switches_onlyIf {c : Command ConfigDir PUnit} (b : Bool)
    (hgives : Gives f (fun _ => entry) c) (hstays : Stays f entry c) :
    Switches f b entry (onlyIf b c) where
  keeps h := by
    rw [h]
    exact keeps_still (.ok ⟨⟩)
  gives h := by
    rw [h]
    exact hgives
  stays := hstays.ite (keeps_still (.ok ⟨⟩)).stays

theorem run_empty (name : String) (hself : anyExpands [name.toList] name.toList = true)
    (d : ConfigDir) : (run (empty name) d).2 (openshift name) = some [] := by
  have hremoved := run_rm .openshift [name.toList] d (openshift name)
  rw [if_pos ⟨rfl, hself⟩] at hremoved
  change (run (touch (openshift name)) (run (rm .openshift [name.toList]) d).2).2 _ = _
  rw [run_touch, if_pos rfl, hremoved]
  rfl

theorem switches_layMux (o : Options) :
    Switches (openshift "input-pre-systemd.conf") o.useMux (some []) (layMux o) := by
  have htemplates := within_cpTemplates o.templates muxPatterns
    (openshift "input-pre-systemd.conf") (by decide)
  have huser := within_cpUser muxPatterns (openshift "input-pre-systemd.conf") (by decide)
  have hdynamic := within_rm .dynamic ["input-docker-*".toList, "input-syslog-*".toList]
    (openshift "input-pre-systemd.conf") (by decide)
  have hmux := within_rm .openshift ["*mux*.conf".toList]
    (openshift "input-pre-systemd.conf") (by decide)
  have hempty := run_empty "input-pre-systemd.conf" (by decide)
  constructor
  · intro h
    rw [layMux, h]
    exact (keeps_still _).bind hmux
  · intro h
    rw [layMux, h, if_pos rfl]
    apply Gives.after (fun _ => rfl)
    apply Gives.after (fun _ => rfl)
    apply Gives.after (fun _ => rfl)
    exact fun d _ => hempty d
  · apply Stays.ite _ ((keeps_still _).bind hmux).stays
    apply htemplates.stays.bind
    apply huser.stays.bind
    apply hdynamic.stays.bind
    exact fun d _ => hempty d

theorem switches_layOutputs (o : Options) :
    Switches (openshift "output-operations.conf") (oneOutput o) (some []) (layOutputs o) := by
  have hmux := within_layMuxOutput (openshift "output-operations.conf") (by decide)
  have htwo := within_layTwoOutputs (openshift "output-operations.conf") (by decide)
  have hrest := within_relabel [zRetag, "filter-post-mux-client.conf".toList]
    "filter-post-z-retag-one.conf" (openshift "output-operations.conf") (by decide)
  have hone (d : ConfigDir) : (run layOneOutput d).2 (openshift "output-operations.conf") =
      some [] := by
    have hempty := run_empty "output-operations.conf" (by decide) d
    exact (hrest _).trans hempty
  have hcases : oneOutput o = true ↔
      o.muxClientMode = [] ∧ elasticsearchOutputs o.toSetup = 1 := by
    rw [oneOutput, Bool.and_eq_true, decide_eq_true_eq, decide_eq_true_eq]
  constructor
  · intro h
    unfold layOutputs
    split
    · exact hmux
    · rename_i hmode
      split
      · rename_i houtputs
        rw [hcases.mpr ⟨not_not.mp hmode, houtputs⟩] at h
        contradiction
      · exact htwo
  · intro h
    obtain ⟨hmode, houtputs⟩ := hcases.mp h
    rw [layOutputs, if_neg (not_not.mpr hmode), if_pos houtputs]
    exact fun d _ => hone d
  · exact hmux.stays.ite (Stays.ite (fun d _ => hone d) htwo.stays)

/-- The other parts of the script. -/
def restReach (f : ConfigFile) : Bool :=
  clientReach f || (agentReach "input-pre-monitor.conf" f || (agentReach "input-pre-debug.conf" f ||
    (decide (f = dataModelFile) || auditReach f)))

theorem layOut_switches (bc : Text → Option Text) {o : Options} {a b c : Bool}
    (hmux : Switches f a entry (layMux o)) (houtputs : Switches f b entry (layOutputs o))
    (hfilters : Switches f c entry (layFilters o)) (hrest : restReach f = false) :
    Switches f (a || (b || c)) entry (layOut bc o) := by
  simp only [restReach, Bool.or_eq_false_iff] at hrest
  obtain ⟨hclient, hmonitor, hdebug, hmodel, haudit⟩ := hrest
  apply hmux.bind
  apply (within_layMuxClient o f hclient).bind_switches
  apply (keeps_still (addresses o)).bind_switches
  apply houtputs.bind
  apply (keeps_still (sizes bc o)).bind_switches
  apply (within_layAgent _ _ f hmonitor).bind_switches
  apply (within_layAgent _ _ f hdebug).bind_switches
  apply (keeps_still o.syslogConfig).bind_switches
  apply (within_layEvents o f hmodel).bind_switches
  exact (within_layAudit o f haudit).bind_switches hfilters

theorem switches_empty (name : String) (b : Bool)
    (hself : anyExpands [name.toList] name.toList = true) :
    Switches (openshift name) b (some []) (onlyIf b (empty name)) :=
  switches_onlyIf b (fun d _ => run_empty name hself d) fun d _ => run_empty name hself d

theorem keeps_empty (name : String) (b : Bool) {f : ConfigFile}
    (h : (matching .openshift [name.toList] f || decide (f = openshift name)) = false) :
    Keeps f (onlyIf b (empty name)) :=
  (within_empty name).onlyIf b f h

theorem keeps_prometheus (b : Bool) {f : ConfigFile}
    (h : matching .openshift ["input-pre-prometheus-metrics.conf".toList] f = false) :
    Keeps f (onlyIf b (rm .openshift ["input-pre-prometheus-metrics.conf".toList])) :=
  (within_rm _ _).onlyIf b f h

theorem switches_utf8 (o : Options) :
    Switches (openshift "filter-pre-force-utf8.conf") (!o.enableUtf8Filter) (some [])
      (layFilters o) := by
  have hdebug := keeps_empty "filter-exclude-journal-debug.conf" o.collectJournalDebugLogs
    (f := openshift "filter-pre-force-utf8.conf") (by decide)
  have hmetrics := keeps_prometheus (!o.enablePrometheusEndpoint)
    (f := openshift "filter-pre-force-utf8.conf") (by decide)
  have hswitches := switches_empty "filter-pre-force-utf8.conf" (!o.enableUtf8Filter)
    (by decide)
  apply hswitches.bind_keeps
  exact hdebug.bind hmetrics

theorem switches_journalDebug (o : Options) :
    Switches (openshift "filter-exclude-journal-debug.conf") o.collectJournalDebugLogs (some [])
      (layFilters o) := by
  have hutf8 := keeps_empty "filter-pre-force-utf8.conf" (!o.enableUtf8Filter)
    (f := openshift "filter-exclude-journal-debug.conf") (by decide)
  have hmetrics := keeps_prometheus (!o.enablePrometheusEndpoint)
    (f := openshift "filter-exclude-journal-debug.conf") (by decide)
  have hswitches := switches_empty "filter-exclude-journal-debug.conf" o.collectJournalDebugLogs
    (by decide)
  apply hutf8.bind_switches
  exact hswitches.bind_keeps hmetrics

theorem switches_prometheus (o : Options) :
    Switches (openshift "input-pre-prometheus-metrics.conf") (!o.enablePrometheusEndpoint) none
      (layFilters o) := by
  have hutf8 := keeps_empty "filter-pre-force-utf8.conf" (!o.enableUtf8Filter)
    (f := openshift "input-pre-prometheus-metrics.conf") (by decide)
  have hdebug := keeps_empty "filter-exclude-journal-debug.conf" o.collectJournalDebugLogs
    (f := openshift "input-pre-prometheus-metrics.conf") (by decide)
  have hself : anyExpands ["input-pre-prometheus-metrics.conf".toList]
      "input-pre-prometheus-metrics.conf".toList = true := by decide
  have hremoved (d : ConfigDir) :
      (run (rm .openshift ["input-pre-prometheus-metrics.conf".toList]) d).2
        (openshift "input-pre-prometheus-metrics.conf") = none := by
    rw [run_rm, if_pos ⟨rfl, hself⟩]
  apply hutf8.bind_switches
  apply hdebug.bind_switches
  exact switches_onlyIf _ (fun d _ => hremoved d) fun d _ => hremoved d

theorem layOut_switches_mux (bc : Text → Option Text) {o : Options}
    (h : Switches f off entry (layMux o))
    (hrest : (restReach f || (outputsReach f || filtersReach f)) = false) :
    Switches f off entry (layOut bc o) := by
  simp only [Bool.or_eq_false_iff] at hrest
  have hstart := layOut_switches bc h (within_layOutputs o f hrest.2.1).switches
    (within_layFilters o f hrest.2.2).switches hrest.1
  rwa [Bool.or_false, Bool.or_false] at hstart

theorem layOut_switches_outputs (bc : Text → Option Text) {o : Options}
    (h : Switches f off entry (layOutputs o))
    (hrest : (restReach f || (muxReach f || filtersReach f)) = false) :
    Switches f off entry (layOut bc o) := by
  simp only [Bool.or_eq_false_iff] at hrest
  have hstart := layOut_switches bc (within_layMux o f hrest.2.1).switches h
    (within_layFilters o f hrest.2.2).switches hrest.1
  rwa [Bool.or_false] at hstart

theorem layOut_switches_filters (bc : Text → Option Text) {o : Options}
    (h : Switches f off entry (layFilters o))
    (hrest : (restReach f || (muxReach f || outputsReach f)) = false) :
    Switches f off entry (layOut bc o) := by
  simp only [Bool.or_eq_false_iff] at hrest
  exact layOut_switches bc (within_layMux o f hrest.2.1).switches
    (within_layOutputs o f hrest.2.2).switches h hrest.1

/-- Behind `sed` every start leaves a section alone or switches it off. -/
theorem layOut_switch (bc : Text → Option Text) (o : Options) :
    ∀ s ∈ switches, Switches (openshift s.name) (s.off o) s.entry (layOut bc o) := by
  intro s hs
  unfold switches at hs
  simp only [List.mem_cons, List.not_mem_nil, or_false] at hs
  rcases hs with rfl | rfl | rfl | rfl | rfl
  · exact layOut_switches_mux bc (switches_layMux o) (by decide)
  · exact layOut_switches_outputs bc (switches_layOutputs o) (by decide)
  · exact layOut_switches_filters bc (switches_utf8 o) (by decide)
  · exact layOut_switches_filters bc (switches_journalDebug o) (by decide)
  · exact layOut_switches_filters bc (switches_prometheus o) (by decide)

def afterStarts (bc : Text → Option Text) (os : List Options) (d : ConfigDir) : ConfigDir :=
  os.foldl (fun d o => (run (start bc o) d).2) d

theorem substituted_entry {s : Switch} (hs : s ∈ switches) (tags : Text) {d : ConfigDir}
    (h : d (openshift s.name) = s.entry) :
    substituted tags d (openshift s.name) = s.entry := by
  unfold switches at hs
  simp only [List.mem_cons, List.not_mem_nil, or_false] at hs
  rcases hs with rfl | rfl | rfl | rfl | rfl <;>
  · rw [substituted, h]
    rfl

theorem stays_off {bc : Text → Option Text} {s : Switch} (hs : s ∈ switches) {d : ConfigDir}
    (h : d (openshift s.name) = s.entry) (os : List Options) :
    afterStarts bc os d (openshift s.name) = s.entry := by
  induction os generalizing d with
  | nil => exact h
  | cons o os ih =>
    exact ih ((layOut_switch bc o s hs).stays _ (substituted_entry hs o.tags h))

theorem left_alone {bc : Text → Option Text} {s : Switch} (hs : s ∈ switches)
    {os : List Options} (h : ∀ o ∈ os, s.off o = false) {d : ConfigDir} (hmarks : Unmarked d) :
    afterStarts bc os d (openshift s.name) = d (openshift s.name) := by
  induction os generalizing d with
  | nil => rfl
  | cons o os ih =>
    have hrun := congrArg Prod.snd (run_start_unmarked bc o hmarks)
    have hkept := (layOut_switch bc o s hs).keeps (h o List.mem_cons_self) d
    have hlater := ih (fun p hp => h p (List.mem_cons_of_mem o hp)) (clean_layOut bc o d hmarks)
    change afterStarts bc os (run (start bc o) d).2 _ = _
    rw [hrun, hlater, hkept]

theorem afterStarts_prepared (bc : Text → Option Text) (os : List Options) {d : ConfigDir}
    (hmarks : Unmarked (prepared os d)) : afterStarts bc os d = afterStarts bc os (prepared os d) := by
  cases os with
  | nil => rfl
  | cons o os =>
    have hrun : run (start bc o) (substituted o.tags d) = run (start bc o) d :=
      run_start_unmarked bc o hmarks
    change afterStarts bc os (run (start bc o) d).2 =
      afterStarts bc os (run (start bc o) (substituted o.tags d)).2
    rw [hrun]

/-- Over all starts in one directory, whatever their environments are: a section that
no environment switches off stays as the first `sed` leaves it, and one that a start has switched
off is off in all later ones, also in those whose environment asks for it. -/
theorem switched_off_for_good (bc : Text → Option Text) (d : ConfigDir) :
    ∀ s ∈ switches,
      (∀ os : List Options, Unmarked (prepared os d) → (∀ o ∈ os, s.off o = false) →
        afterStarts bc os d (openshift s.name) = prepared os d (openshift s.name)) ∧
      ∀ (before : List Options) (o : Options) (after : List Options), s.off o = true →
        (run (start bc o) (afterStarts bc before d)).1.isOk = true →
        afterStarts bc (before ++ o :: after) d (openshift s.name) = s.entry := by
  intro s hs
  refine ⟨fun os hmarks h => ?_, fun before o after hoff hok => ?_⟩
  · rw [afterStarts_prepared bc os hmarks, left_alone hs h hmarks]
  · have hentry := (layOut_switch bc o s hs).gives hoff _ hok
    rw [afterStarts, List.foldl_append, List.foldl_cons]
    exact stays_off hs hentry after

def moved : List Options :=
  [{ plainSetup with templates := [] },
    { plainSetup with templates := [], opsHost := "logging-es-ops".toList }]

theorem switched_off_for_good_operations :
    afterStarts bcProduct moved (fun _ => some ["@include".toList])
      (openshift "output-operations.conf") = some [] :=
  (switched_off_for_good bcProduct _ _ (List.mem_cons_of_mem _ List.mem_cons_self)).2 [] _ _
    (by decide) (by decide)

end Switches

end AggregatedLogging.Fluentd.StartUp
