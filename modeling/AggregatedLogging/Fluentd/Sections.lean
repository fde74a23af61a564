import AggregatedLogging.Fluentd.Starts

/-! The sections `filter-post-z-*.conf`, which tag the records for the outputs. -/
namespace AggregatedLogging.Fluentd.StartUp

open Calls Shell Overlay

def muxClientSection : String := "filter-post-z-mux-client.conf"

def oneSection : String := "filter-post-z-retag-one.conf"

def twoSection : String := "filter-post-z-retag-two.conf"

def retagSections : List String := [oneSection, twoSection]

def outputSection (o : Options) : String :=
  if o.muxClientMode ≠ [] then muxClientSection
  else if elasticsearchOutputs o.toSetup = 1 then oneSection
  else twoSection

/-- What a part of the script leaves of a section when it removes by `patterns` and
enables the section `enabled`. -/
def relabelled (patterns : List Text) (enabled name : String) (d : ConfigDir) :
    Option (List Text) :=
  if outputLabel d = true ∧ name = enabled then d (template name)
  else if anyExpands patterns name.toList = true then none
  else d (openshift name)

theorem openshift_inj {a b : String} : openshift a = openshift b ↔ a = b := by
  rw [openshift, openshift, ConfigFile.mk.injEq, String.toList_inj]
  exact ⟨fun h => h.2, fun h => ⟨rfl, h⟩⟩

theorem enable_gives (enabled name : String) :
    Gives (openshift name)
      (fun d => if name = enabled then d (template name) else d (openshift name))
      (enable enabled) := by
  intro d hok
  rw [enable, run_cp]
  by_cases h : name = enabled
  · subst h
    exact (if_pos ⟨rfl, run_cp_ok hok⟩).trans (if_pos rfl).symm
  · exact (if_neg fun hboth => h (openshift_inj.mp hboth.1)).trans (if_neg h).symm

theorem relabel_gives (patterns : List Text) (enabled name : String) :
    Gives (openshift name) (relabelled patterns enabled name) (relabel patterns enabled) := by
  intro d hok
  unfold relabel at hok ⊢
  have hlabel : outputLabel (run (rm .openshift patterns) d).2 = outputLabel d := rfl
  have htemplate : (run (rm .openshift patterns) d).2 (template name) = d (template name) := rfl
  have hremoved : (run (rm .openshift patterns) d).2 (openshift name) =
      if anyExpands patterns name.toList = true then none else d (openshift name) := by
    rw [run_rm]
    exact if_congr (and_iff_right rfl) rfl rfl
  obtain ⟨-, hrun⟩ := run_then_ok hok
  rw [hrun, run_ifLabelled, hlabel] at hok ⊢
  unfold relabelled
  split at hok
  · rename_i hlabelled
    have hgives := enable_gives enabled name _ hok
    simp only [htemplate, hremoved] at hgives
    rw [if_pos hlabelled, hgives]
    simp only [hlabelled, true_and]
  · rename_i hlabelled
    rw [if_neg hlabelled, if_neg fun h => hlabelled h.1]
    exact hremoved

def sectionAfter (o : Options) (name : String) (d : ConfigDir) : Option (List Text) :=
  if outputLabel d = true ∧ name = outputSection o then d (template name)
  else if name = muxClientSection then d (openshift name)
  else none

def sections : List String := muxClientSection :: retagSections

theorem relabelled_section (o : Options) {name : String} (hname : name ∈ sections)
    {patterns : List Text}
    (h : patterns ∈ [[zRetag], [zRetag, "filter-post-mux-client.conf".toList]]) :
    relabelled patterns (outputSection o) name = sectionAfter o name := by
  have hpatterns : ∀ name ∈ sections, ∀ patterns ∈ [[zRetag],
      [zRetag, "filter-post-mux-client.conf".toList]],
        anyExpands patterns name.toList = decide (name ≠ muxClientSection) := by
    decide
  funext d
  unfold relabelled sectionAfter
  rw [hpatterns name hname patterns h]
  by_cases hmux : name = muxClientSection
  · simp [hmux]
  · simp [hmux]

theorem sectionAfter_laid {c : Command ConfigDir PUnit} (h : Laid c) (o : Options) {name : String}
    (hc : Keeps (openshift name) c) (d : ConfigDir) :
    sectionAfter o name (run c d).2 = sectionAfter o name d := by
  have hconf : Keeps fluentConf c := h.keeps_source isSource_not_free rfl
  have htemplate : Keeps (template name) c := h.keeps_source isSource_not_free rfl
  unfold sectionAfter outputLabel
  rw [hconf, htemplate, hc]

theorem layOutputs_gives (o : Options) {name : String} (hname : name ∈ sections) :
    Gives (openshift name) (sectionAfter o name) (layOutputs o) := by
  have hother : ∀ name ∈ sections,
      openshift name ≠ ⟨.dynamic, "output-es-ops-config.conf".toList⟩ ∧
        openshift name ≠ ⟨.dynamic, "output-es-ops-retry.conf".toList⟩ ∧
        (matching .openshift ["output-operations.conf".toList] (openshift name) ||
          decide (openshift name = openshift "output-operations.conf")) = false := by
    decide
  obtain ⟨hconfig, hretry, hoperations⟩ := hother name hname
  unfold layOutputs
  split
  · rename_i hmode
    have hsection : outputSection o = "filter-post-z-mux-client.conf" := if_pos hmode
    have hgives := relabel_gives [zRetag] (outputSection o) name
    rw [relabelled_section o hname List.mem_cons_self, hsection] at hgives
    exact hgives.bind_keeps (within_cp _ _ _ (decide_eq_false hconfig))
  · rename_i hmode
    have hlater : [zRetag, "filter-post-mux-client.conf".toList] ∈
        [[zRetag], [zRetag, "filter-post-mux-client.conf".toList]] :=
      List.mem_cons_of_mem _ List.mem_cons_self
    have hgives := relabel_gives [zRetag, "filter-post-mux-client.conf".toList]
      (outputSection o) name
    rw [relabelled_section o hname hlater] at hgives
    split
    · rename_i houtputs
      have hsection : outputSection o = "filter-post-z-retag-one.conf" := by
        rw [outputSection, if_neg hmode, if_pos houtputs]
        rfl
      rw [hsection] at hgives
      exact Gives.after (sectionAfter_laid laid_empty o (within_empty _ _ hoperations)) hgives
    · rename_i houtputs
      have hsection : outputSection o = "filter-post-z-retag-two.conf" := by
        rw [outputSection, if_neg hmode, if_neg houtputs]
        rfl
      rw [hsection] at hgives
      apply Gives.after (sectionAfter_laid (laid_offer (by decide)) o
        (within_cp _ _ _ (decide_eq_false hconfig)))
      exact Gives.after (sectionAfter_laid (laid_offer (by decide)) o
        (within_cp _ _ _ (decide_eq_false hretry))) hgives

/-- What a start leaves of a section: without the mux a file for its clients goes. -/
def sectionLeft (o : Options) (name : String) (d : ConfigDir) : Option (List Text) :=
  if outputLabel d = true ∧ name = outputSection o then d (template name)
  else if name = muxClientSection ∧ o.useMux = true then d (openshift name)
  else none

theorem layMux_muxClient (o : Options) :
    Gives (openshift muxClientSection)
      (fun d => if o.useMux = true then d (openshift muxClientSection) else none) (layMux o) := by
  intro d hok
  change _ = if o.useMux = true then d (openshift muxClientSection) else none
  unfold layMux at hok ⊢
  split at hok
  · rename_i hmux
    rw [if_pos hmux, if_pos hmux]
    have htemplates := within_cpTemplates o.templates muxPatterns
      (openshift muxClientSection) (by decide)
    have huser := within_cpUser muxPatterns (openshift muxClientSection) (by decide)
    have hdynamic := within_rm .dynamic ["input-docker-*".toList, "input-syslog-*".toList]
      (openshift muxClientSection) (by decide)
    have hsystemd := within_empty "input-pre-systemd.conf" (openshift muxClientSection)
      (by decide)
    apply Keeps.bind htemplates
    apply Keeps.bind huser
    exact Keeps.bind hdynamic hsystemd
  · rename_i hmux
    obtain ⟨-, hrun⟩ := run_then_ok hok
    rw [if_neg hmux, if_neg hmux, hrun, run_rm]
    exact if_pos ⟨rfl, by decide⟩

theorem layMux_section (o : Options) (name : String) {d : ConfigDir}
    (hok : (run (layMux o) d).1.isOk = true) :
    sectionAfter o name (run (layMux o) d).2 = sectionLeft o name d := by
  have hconf : Keeps fluentConf (layMux o) := (laid_layMux o).keeps_source isSource_not_free rfl
  have htemplate : Keeps (template name) (layMux o) :=
    (laid_layMux o).keeps_source isSource_not_free rfl
  unfold sectionAfter sectionLeft outputLabel
  rw [hconf, htemplate]
  by_cases h : name = muxClientSection
  · subst h
    rw [layMux_muxClient o d hok, if_pos rfl]
    simp only [true_and]
  · simp only [h, false_and, ↓reduceIte]

theorem layOut_section (bc : Text → Option Text) (o : Options) {name : String}
    (hname : name ∈ sections) : Gives (openshift name) (sectionLeft o name) (layOut bc o) := by
  have hreach : ∀ name ∈ sections, clientReach (openshift name) = false ∧
      agentReach "input-pre-monitor.conf" (openshift name) = false ∧
      agentReach "input-pre-debug.conf" (openshift name) = false ∧
      decide (openshift name = dataModelFile) = false ∧
      auditReach (openshift name) = false ∧ filtersReach (openshift name) = false := by
    decide
  obtain ⟨hclient, hmonitor, hdebug, hmodel, haudit, hfilters⟩ := hreach name hname
  have hlater : Keeps (openshift name) (do
      yields (sizes bc o)
      layAgent o.enableMonitorAgent "input-pre-monitor.conf"
      layAgent o.enableDebugAgent "input-pre-debug.conf"
      yields o.syslogConfig
      layEvents o
      layAudit o
      layFilters o) := by
    apply Keeps.bind (keeps_still (sizes bc o))
    apply Keeps.bind (within_layAgent _ _ _ hmonitor)
    apply Keeps.bind (within_layAgent _ _ _ hdebug)
    apply Keeps.bind (keeps_still o.syslogConfig)
    apply Keeps.bind (within_layEvents o _ hmodel)
    exact Keeps.bind (within_layAudit o _ haudit) (within_layFilters o _ hfilters)
  have houtputs : Gives (openshift name) (sectionAfter o name) (do
      layMuxClient o
      yields (addresses o)
      layOutputs o
      yields (sizes bc o)
      layAgent o.enableMonitorAgent "input-pre-monitor.conf"
      layAgent o.enableDebugAgent "input-pre-debug.conf"
      yields o.syslogConfig
      layEvents o
      layAudit o
      layFilters o) := by
    apply Gives.after (sectionAfter_laid (laid_layMuxClient o) o (within_layMuxClient o _ hclient))
    apply Gives.after (fun _ => rfl)
    exact (layOutputs_gives o hname).bind_keeps hlater
  intro d hok
  obtain ⟨hmux, hrun⟩ := run_then_ok hok
  rw [← layMux_section o name hmux]
  rw [layOut, hrun] at hok ⊢
  exact houtputs _ hok

/-- A start as a client, after which the container was started as a mux only. -/
def leftOver : List Options → Bool
  | [] => false
  | o :: after => (o.muxClientMode ≠ [] && after.all fun p => p.useMux) || leftOver after

theorem leftOver_snoc (os : List Options) (o : Options) :
    leftOver (os ++ [o]) = (decide (o.muxClientMode ≠ []) || (leftOver os && o.useMux)) := by
  induction os with
  | nil => simp [leftOver]
  | cons p os ih =>
    rw [List.cons_append, leftOver, ih, leftOver, List.all_append, List.all_cons, List.all_nil,
      Bool.and_true]
    generalize decide (p.muxClientMode ≠ []) = a, (os.all fun p => p.useMux) = b,
      decide (o.muxClientMode ≠ []) = c, leftOver os = l, o.useMux = u
    revert a b c l u
    decide

theorem outputSection_client (o : Options) :
    muxClientSection = outputSection o ↔ o.muxClientMode ≠ [] := by
  have hone : muxClientSection ≠ oneSection := by decide
  have htwo : muxClientSection ≠ twoSection := by decide
  unfold outputSection
  by_cases h : o.muxClientMode = []
  · rw [if_neg (not_not.mpr h)]
    split
    · simp [h, hone]
    · simp [h, htwo]
  · rw [if_pos h]
    exact iff_of_true rfl h

theorem layOuts_keep {f : ConfigFile} (hf : isSource f = true) (bc : Text → Option Text)
    (os : List Options) : Keeps f (os.forM (layOut bc)) := by
  induction os with
  | nil => exact keeps_still (.ok ⟨⟩)
  | cons o os ih =>
    have ho : Keeps f (layOut bc o) := (laid_layOut bc o).keeps_source isSource_not_free hf
    exact Keeps.bind (e := fun _ => os.forM (layOut bc)) ho ih

theorem forM_snoc (c : Options → Command ConfigDir PUnit) (os : List Options) (o : Options) :
    (os ++ [o]).forM c = os.forM c >>= fun _ => c o := by
  have happend : forM (os ++ [o]) c = (do forM os c; forM [o] c) := List.forM_append
  rw [List.forM_cons, List.forM_nil, bind_pure_unit] at happend
  exact happend

theorem layOuts_snoc {bc : Text → Option Text} {os : List Options} {o : Options} {d d' : ConfigDir}
    (h : run ((os ++ [o]).forM (layOut bc)) d = (.ok ⟨⟩, d')) :
    ∃ d₁, run (os.forM (layOut bc)) d = (.ok ⟨⟩, d₁) ∧ (run (layOut bc o) d₁).1.isOk = true ∧
      (run (layOut bc o) d₁).2 = d' := by
  rw [forM_snoc] at h
  have hok : (run (os.forM (layOut bc) >>= fun _ => layOut bc o) d).1.isOk = true := by
    rw [h]
    rfl
  obtain ⟨hbefore, hrun⟩ := run_then_ok hok
  rw [hrun] at h hok
  refine ⟨(run (os.forM (layOut bc)) d).2, ?_, hok, congrArg Prod.snd h⟩
  rcases hstate : run (os.forM (layOut bc)) d with ⟨_ | ⟨⟨⟩⟩, t⟩
  · rw [hstate] at hbefore
    contradiction
  · rfl

theorem sections_laid {bc : Text → Option Text} {os : List Options} {d d' : ConfigDir}
    (h : run (os.forM (layOut bc)) d = (.ok ⟨⟩, d'))
    (himage : ∀ name ∈ sections, d (openshift name) = none) :
    (∀ name ∈ retagSections, d' (openshift name) =
      if outputLabel d = true ∧ os.getLast?.map outputSection = some name then d (template name)
      else none) ∧
    d' (openshift muxClientSection) =
      if outputLabel d = true ∧ leftOver os = true then d (template muxClientSection)
      else none := by
  induction os using List.reverseRecOn generalizing d' with
  | nil =>
    cases h
    constructor
    · intro name hname
      exact (himage name (List.mem_cons_of_mem _ hname)).trans (by simp)
    · exact (himage muxClientSection List.mem_cons_self).trans (by simp [leftOver])
  | append_singleton os o ih =>
    obtain ⟨d₁, hbefore, hok, rfl⟩ := layOuts_snoc h
    have hclients := (ih hbefore).2
    have hkept {f : ConfigFile} (hf : isSource f = true) : d₁ f = d f := by
      have hstate := layOuts_keep hf bc os d
      rwa [hbefore] at hstate
    have hlabel : outputLabel d₁ = outputLabel d := by
      rw [outputLabel, hkept rfl]
      rfl
    constructor
    · intro name hname
      have hother : name ≠ muxClientSection := by
        have hnames : ∀ name ∈ retagSections, name ≠ muxClientSection := by decide
        exact hnames name hname
      rw [layOut_section bc o (List.mem_cons_of_mem _ hname) d₁ hok, sectionLeft, hlabel,
        hkept rfl, List.getLast?_concat, Option.map_some]
      simp only [hother, false_and, ↓reduceIte, Option.some.injEq, eq_comm (a := name)]
    · rw [layOut_section bc o List.mem_cons_self d₁ hok, sectionLeft, hlabel, hkept rfl, hclients,
        leftOver_snoc]
      simp only [outputSection_client, true_and, Bool.or_eq_true, Bool.and_eq_true,
        decide_eq_true_eq]
      by_cases hlabelled : outputLabel d = true
      · by_cases hclient : o.muxClientMode = []
        · by_cases hmux : o.useMux = true
          · simp [hlabelled, hclient, hmux]
          · simp [hlabelled, hclient, hmux]
        · simp [hlabelled, hclient]
      · simp [hlabelled]

theorem run_starts_unmarked (bc : Text → Option Text) (os : List Options) {d : ConfigDir}
    (hmarks : Unmarked d) : run (os.forM (start bc)) d = run (os.forM (layOut bc)) d := by
  induction os generalizing d with
  | nil => rfl
  | cons o os ih =>
    change run (start bc o >>= fun _ => os.forM (start bc)) d =
      run (layOut bc o >>= fun _ => os.forM (layOut bc)) d
    rw [run_then, run_then, run_start_unmarked bc o hmarks, ih (clean_layOut bc o d hmarks)]

theorem run_starts (bc : Text → Option Text) (os : List Options) {d : ConfigDir}
    (hmarks : Unmarked (prepared os d)) :
    run (os.forM (start bc)) d = run (os.forM (layOut bc)) (prepared os d) := by
  rw [← run_starts_unmarked bc os hmarks]
  cases os with
  | nil => rfl
  | cons o os =>
    have hfirst : run (start bc o) (substituted o.tags d) = run (start bc o) d :=
      run_start_unmarked bc o hmarks
    change run (start bc o >>= fun _ => os.forM (start bc)) d =
      run (start bc o >>= fun _ => os.forM (start bc)) (substituted o.tags d)
    rw [run_then, run_then, hfirst]

/-- After a run of starts in the directory of the image there is the section for the
outputs of the last start, and besides it the one of the clients for a container that
was a client once and only a mux from then on.  They are the templates as the first `sed`
leaves them. -/
theorem sections_after {bc : Text → Option Text} {os : List Options} {d d' : ConfigDir}
    (h : run (os.forM (start bc)) d = (.ok ⟨⟩, d')) (hmarks : Unmarked (prepared os d))
    (himage : ∀ name ∈ sections, d (openshift name) = none) :
    (∀ name ∈ retagSections, d' (openshift name) =
      if outputLabel (prepared os d) = true ∧ os.getLast?.map outputSection = some name then
        prepared os d (template name)
      else none) ∧
    d' (openshift muxClientSection) =
      if outputLabel (prepared os d) = true ∧ leftOver os = true then
        prepared os d (template muxClientSection)
      else none := by
  rw [run_starts bc os hmarks] at h
  apply sections_laid h
  intro name hname
  cases os with
  | nil => exact himage name hname
  | cons o os =>
    rw [prepared, substituted, himage name hname]
    rfl

theorem run_of_ok {c : Command ConfigDir PUnit} {d : ConfigDir} (h : (run c d).1 = .ok ⟨⟩) :
    run c d = (.ok ⟨⟩, (run c d).2) := by
  rw [← h]

def Succeeds (d : ConfigDir) (c : Command ConfigDir PUnit) : Prop :=
  Laid c ∧ (run c d).1 = .ok ⟨⟩

theorem Succeeds.bind {c : Command ConfigDir PUnit} {e : PUnit → Command ConfigDir PUnit}
    {d : ConfigDir} (hc : Succeeds d c) (he : Succeeds d (e ⟨⟩)) : Succeeds d (c >>= e) := by
  refine ⟨hc.1.bind he.1, ?_⟩
  rw [run_then, hc.2]
  exact (hc.1.ends_behind isSource_not_free he.1 d).trans he.2

/-- It succeeds when each of its parts would succeed in its place. -/
theorem layOut_ok {bc : Text → Option Text} {o : Options} {d : ConfigDir}
    (h : (run (layMux o) d).1 = .ok ⟨⟩ ∧ (run (layMuxClient o) d).1 = .ok ⟨⟩ ∧
      addresses o = .ok ⟨⟩ ∧ (run (layOutputs o) d).1 = .ok ⟨⟩ ∧ sizes bc o = .ok ⟨⟩ ∧
      (run (layAgent o.enableMonitorAgent "input-pre-monitor.conf") d).1 = .ok ⟨⟩ ∧
      (run (layAgent o.enableDebugAgent "input-pre-debug.conf") d).1 = .ok ⟨⟩ ∧
      o.syslogConfig = .ok ⟨⟩ ∧ (run (layEvents o) d).1 = .ok ⟨⟩ ∧
      (run (layAudit o) d).1 = .ok ⟨⟩ ∧ (run (layFilters o) d).1 = .ok ⟨⟩) :
    (run (layOut bc o) d).1 = .ok ⟨⟩ := by
  obtain ⟨hmux, hclient, haddresses, houtputs, hsizes, hmonitor, hdebug, hsyslog, hevents, haudit,
    hfilters⟩ := h
  have hstart : Succeeds d (layOut bc o) := by
    apply Succeeds.bind ⟨laid_layMux o, hmux⟩
    apply Succeeds.bind ⟨laid_layMuxClient o, hclient⟩
    apply Succeeds.bind ⟨laid_yields _, haddresses⟩
    apply Succeeds.bind ⟨laid_layOutputs o, houtputs⟩
    apply Succeeds.bind ⟨laid_yields _, hsizes⟩
    apply Succeeds.bind ⟨laid_layAgent _, hmonitor⟩
    apply Succeeds.bind ⟨laid_layAgent _, hdebug⟩
    apply Succeeds.bind ⟨laid_yields _, hsyslog⟩
    apply Succeeds.bind ⟨laid_layEvents o, hevents⟩
    apply Succeeds.bind ⟨laid_layAudit o, haudit⟩
    exact ⟨laid_layFilters o, hfilters⟩
  exact hstart.2

theorem layOuts_ok {bc : Text → Option Text} {os : List Options} {d : ConfigDir}
    (h : ∀ o ∈ os, (run (layOut bc o) d).1 = .ok ⟨⟩) :
    (run (os.forM (layOut bc)) d).1 = .ok ⟨⟩ := by
  induction os generalizing d with
  | nil => rfl
  | cons o os ih =>
    have hfirst := h o List.mem_cons_self
    change (run (layOut bc o >>= fun _ => os.forM (layOut bc)) d).1 = _
    rw [run_then, hfirst]
    apply ih
    intro p hp
    rw [(laid_layOut bc o).ends_behind isSource_not_free (laid_layOut bc p)]
    exact h p (List.mem_cons_of_mem o hp)

def imageDir (f : ConfigFile) : Option (List Text) :=
  if f.place = .openshift ∧ f.name ∈ sections.map String.toList then none else markedDir f

def formerClient : List Options :=
  [{ defaultOptions with muxClientMode := maximal },
    { defaultOptions with
      templates := ["input-post-forward-mux.conf".toList, "filter-pre-mux.conf".toList]
      useMux := true }]

theorem imageDir_unmarked : Unmarked (prepared formerClient imageDir) := by
  intro f lines hlines
  change (imageDir f).map (·.map (withTags defaultOptions.tags)) = some lines at hlines
  unfold imageDir at hlines
  split at hlines
  · contradiction
  · exact markedDir_unmarked f lines hlines

theorem sections_after_formerClient :
    (run (formerClient.forM (start bcProduct)) imageDir).2 (openshift oneSection) =
        prepared formerClient imageDir (template oneSection) ∧
      (run (formerClient.forM (start bcProduct)) imageDir).2 (openshift muxClientSection) =
        prepared formerClient imageDir (template muxClientSection) := by
  have hparts : ∀ o ∈ formerClient, (run (layMux o) (prepared formerClient imageDir)).1 = .ok ⟨⟩ ∧
      (run (layMuxClient o) (prepared formerClient imageDir)).1 = .ok ⟨⟩ ∧
      addresses o = .ok ⟨⟩ ∧
      (run (layOutputs o) (prepared formerClient imageDir)).1 = .ok ⟨⟩ ∧
      sizes bcProduct o = .ok ⟨⟩ ∧
      (run (layAgent o.enableMonitorAgent "input-pre-monitor.conf")
        (prepared formerClient imageDir)).1 = .ok ⟨⟩ ∧
      (run (layAgent o.enableDebugAgent "input-pre-debug.conf")
        (prepared formerClient imageDir)).1 = .ok ⟨⟩ ∧
      o.syslogConfig = .ok ⟨⟩ ∧
      (run (layEvents o) (prepared formerClient imageDir)).1 = .ok ⟨⟩ ∧
      (run (layAudit o) (prepared formerClient imageDir)).1 = .ok ⟨⟩ ∧
      (run (layFilters o) (prepared formerClient imageDir)).1 = .ok ⟨⟩ := by
    decide
  have hok : (run (formerClient.forM (start bcProduct)) imageDir).1 = .ok ⟨⟩ := by
    rw [run_starts bcProduct formerClient imageDir_unmarked]
    exact layOuts_ok fun o ho => layOut_ok (hparts o ho)
  have hsections := sections_after (run_of_ok hok) imageDir_unmarked (by decide)
  refine ⟨(hsections.1 oneSection (by decide)).trans ?_, hsections.2.trans ?_⟩
  · exact if_pos (by decide)
  · exact if_pos (by decide)

end AggregatedLogging.Fluentd.StartUp
