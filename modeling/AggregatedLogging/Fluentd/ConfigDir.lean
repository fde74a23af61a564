import AggregatedLogging.Overlay
import AggregatedLogging.Fluentd.FileBuffers
import AggregatedLogging.Fluentd.TagList

/-! The files below `CFG_DIR`, which `run.sh` lays out for the options of the container. -/
namespace AggregatedLogging.Fluentd.StartUp

open Calls Shell Overlay

inductive Place where
  | root
  | openshift
  | dynamic
  | user
  deriving DecidableEq, Repr

structure ConfigFile where
  place : Place
  name : Text
  deriving DecidableEq, Repr

/-- The lines of the files that are there. -/
abbrev ConfigDir := ConfigFile → Option (List Text)

/-- The environment of `run.sh`, with the names of the files in `CFG_DIR` itself, the text of
`OCP_FLUENTD_TAGS`, and how `generate_throttle_configs.rb` and `generate_syslog_config.rb` end.  A
switch tells whether its variable has the value `true`, or the default that stands for it. -/
structure Options extends Setup where
  templates : List Text
  tags : Text := []
  useMux : Bool := false
  throttleConfigs : Except Nat Unit := .ok ⟨⟩
  syslogConfig : Except Nat Unit := .ok ⟨⟩
  enableMonitorAgent : Bool := false
  enableDebugAgent : Bool := false
  transformEvents : Bool := false
  auditContainerEngine : Bool := false
  enableUtf8Filter : Bool := false
  collectJournalDebugLogs : Bool := true
  enablePrometheusEndpoint : Bool := true

def anyExpands (patterns : List Text) (name : Text) : Bool := patterns.any fun p => expands p name

section Commands

def cp (source target : ConfigFile) : Command ConfigDir PUnit :=
  laying (fun d f => if f = target ∧ (d source).isSome then .put (d source) else .keep)
    fun d => if (d source).isSome then .ok ⟨⟩ else .error 1

/-- `cp` of all templates that match; a pattern for which there is none stands for
itself, and `cp` does not find it. -/
def cpTemplates (templates patterns : List Text) : Command ConfigDir PUnit :=
  laying
    (fun d f =>
      if f.place = .openshift ∧ f.name ∈ templates ∧ anyExpands patterns f.name ∧
          (d ⟨.root, f.name⟩).isSome then
        .put (d ⟨.root, f.name⟩)
      else .keep)
    fun d =>
      if patterns.all fun p => templates.any fun n => expands p n && (d ⟨.root, n⟩).isSome then
        .ok ⟨⟩
      else .error 1

/-- The loop that copies the files of the user, if there are any. -/
def cpUser (patterns : List Text) : Command ConfigDir PUnit :=
  laying
    (fun d f =>
      if f.place = .openshift ∧ anyExpands patterns f.name ∧ (d ⟨.user, f.name⟩).isSome then
        .put (d ⟨.user, f.name⟩)
      else .keep)
    fun _ => .ok ⟨⟩

/-- `if [ -f source ]; then cp -f source target; fi` -/
def cpIfThere (source target : ConfigFile) : Command ConfigDir PUnit :=
  laying (fun d f => if f = target ∧ (d source).isSome then .put (d source) else .keep)
    fun _ => .ok ⟨⟩

/-- `rm -f` of all files in a directory that match. -/
def rm (place : Place) (patterns : List Text) : Command ConfigDir PUnit :=
  laying
    (fun _ f => if f.place = place ∧ anyExpands patterns f.name then .put none else .keep)
    fun _ => .ok ⟨⟩

def touch (file : ConfigFile) : Command ConfigDir PUnit :=
  laying (fun _ f => if f = file then .default [] else .keep) fun _ => .ok ⟨⟩

/-- The files behind `sed -i`, which goes over all that hold the mark; nothing in the tags is
special to it. -/
def substituted (tags : Text) (d : ConfigDir) : ConfigDir := fun f => (d f).map (·.map (withTags tags))

def substitute (tags : Text) : Command ConfigDir PUnit := modify (substituted tags)

end Commands

def template (name : String) : ConfigFile := ⟨.root, name.toList⟩

def openshift (name : String) : ConfigFile := ⟨.openshift, name.toList⟩

def userFile (name : String) : ConfigFile := ⟨.user, name.toList⟩

/-- `cp $CFG_DIR/name $CFG_DIR/openshift` -/
def enable (name : String) : Command ConfigDir PUnit := cp (template name) (openshift name)

/-- `rm -f` and `touch`: the section is empty then. -/
def empty (name : String) : Command ConfigDir PUnit := do
  rm .openshift [name.toList]
  touch (openshift name)

def dataModelFile : ConfigFile := openshift "filter-viaq-data-model.conf"

def fluentConf : ConfigFile := userFile "fluent.conf"

/-- `output_label`; `/etc/fluent/fluent.conf` is a link to the file of the user. -/
def outputLabel (d : ConfigDir) : Bool :=
  ((d fluentConf).getD []).any (Regex.matchesText "<label @OUTPUT>".toList)

def onlyIf (b : Bool) (c : Command ConfigDir PUnit) : Command ConfigDir PUnit :=
  if b then c else pure ⟨⟩

def ifLabelled (c d : Command ConfigDir PUnit) : Command ConfigDir PUnit :=
  get >>= fun m => if outputLabel m then c else d

section Script

def muxPatterns : List Text := ["input-*-mux.conf".toList, "filter-*-mux.conf".toList]

def layMux (o : Options) : Command ConfigDir PUnit :=
  if o.useMux then do
    cpTemplates o.templates muxPatterns
    cpUser muxPatterns
    rm .dynamic ["input-docker-*".toList, "input-syslog-*".toList]
    empty "input-pre-systemd.conf"
  else do
    yields o.throttleConfigs
    rm .openshift ["*mux*.conf".toList]

def maximal : Text := "maximal".toList

def minimal : Text := "minimal".toList

def layMinimal : Command ConfigDir PUnit := do
  enable "filter-pre-mux-client-retag-raw.conf"
  ifLabelled (pure ⟨⟩) (enable "input-post-output.conf")

def layMuxClient (o : Options) : Command ConfigDir PUnit :=
  if o.muxClientMode ≠ [] then do
    onlyIf (o.muxClientMode = minimal) layMinimal
    cp (template "filter-pre-mux-client.conf") (openshift "output-pre-mux-client.conf")
    cpIfThere (userFile "filter-pre-mux-client.conf") (openshift "output-pre-mux-client.conf")
    onlyIf (o.muxClientMode = maximal)
      (cp (template "filter-parse-json-field.conf") (openshift "filter-k8s-meta.conf"))
  else
    rm .openshift ["filter-pre-mux-client.conf".toList, "output-pre-mux-client.conf".toList]

def addresses (o : Options) : Except Nat Unit :=
  if Shell.words o.esHost = [] ∨ Shell.words o.esPort = [] then .error 1 else .ok ⟨⟩

/-- `cp $CFG_DIR/{openshift,dynamic}/name` -/
def offer (name : String) : Command ConfigDir PUnit :=
  cp (openshift name) ⟨.dynamic, name.toList⟩

def zRetag : Text := "filter-post-z-retag-*.conf".toList

def relabel (patterns : List Text) (enabled : String) : Command ConfigDir PUnit := do
  rm .openshift patterns
  ifLabelled (enable enabled) (pure ⟨⟩)

def layMuxOutput : Command ConfigDir PUnit := do
  relabel [zRetag] "filter-post-z-mux-client.conf"
  offer "output-es-ops-config.conf"

def layOneOutput : Command ConfigDir PUnit := do
  empty "output-operations.conf"
  relabel [zRetag, "filter-post-mux-client.conf".toList] "filter-post-z-retag-one.conf"

def layTwoOutputs : Command ConfigDir PUnit := do
  offer "output-es-ops-config.conf"
  offer "output-es-ops-retry.conf"
  relabel [zRetag, "filter-post-mux-client.conf".toList] "filter-post-z-retag-two.conf"

def layOutputs (o : Options) : Command ConfigDir PUnit :=
  if o.muxClientMode ≠ [] then layMuxOutput
  else if elasticsearchOutputs o.toSetup = 1 then layOneOutput
  else layTwoOutputs

/-- The tests of the buffer sizes.  The forward outputs in the files are counted in a
subshell, the number of outputs stays what it is. -/
def sizes (bc : Text → Option Text) (o : Options) : Except Nat Unit := do
  let df ← availableSize o.toSetup
  let total ← totalLimit bc o.toSetup
  let _ ← divide bc o.toSetup df total (elasticsearchOutputs o.toSetup)
  pure ⟨⟩

def layAgent (enabled : Bool) (name : String) : Command ConfigDir PUnit :=
  if enabled then do
    enable name
    cpIfThere (userFile name) (openshift name)
  else
    rm .openshift [name.toList]

def isDataModel (line : Text) : Bool := Regex.matchesText "@type viaq_data_model".toList line

def noEvents : Text := "  process_kubernetes_events false".toList

def withoutEvents (lines : List Text) : List Text :=
  lines.flatMap fun line => if isDataModel line then [line, noEvents] else [line]

def disablesEvents (o : Options) : Bool :=
  !o.transformEvents || o.muxClientMode ≠ []

def layEvents (o : Options) : Command ConfigDir PUnit :=
  onlyIf (disablesEvents o) (rewriting dataModelFile withoutEvents 2)

def layAudit (o : Options) : Command ConfigDir PUnit :=
  if o.auditContainerEngine then do
    enable "input-pre-audit-log.conf"
    enable "filter-pre-a-audit-exclude.conf"
  else do
    touch (openshift "input-pre-audit-log.conf")
    touch (openshift "filter-pre-a-audit-exclude.conf")

def layFilters (o : Options) : Command ConfigDir PUnit := do
  onlyIf (!o.enableUtf8Filter) (empty "filter-pre-force-utf8.conf")
  onlyIf o.collectJournalDebugLogs (empty "filter-exclude-journal-debug.conf")
  onlyIf (!o.enablePrometheusEndpoint)
    (rm .openshift ["input-pre-prometheus-metrics.conf".toList])

/-- `run.sh` behind its first `sed`, up to the start of fluentd.  Of a generator it tells how
it ends, not the files in `dynamic` that it writes. -/
def layOut (bc : Text → Option Text) (o : Options) : Command ConfigDir PUnit := do
  layMux o
  layMuxClient o
  yields (addresses o)
  layOutputs o
  yields (sizes bc o)
  layAgent o.enableMonitorAgent "input-pre-monitor.conf"
  layAgent o.enableDebugAgent "input-pre-debug.conf"
  yields o.syslogConfig
  layEvents o
  layAudit o
  layFilters o

/-- `run.sh`, as far as it changes the files below `CFG_DIR`. -/
def start (bc : Text → Option Text) (o : Options) : Command ConfigDir PUnit := do
  substitute o.tags
  layOut bc o

end Script

section Runs

theorem run_rm (place : Place) (patterns : List Text) (d : ConfigDir) (f : ConfigFile) :
    (run (rm place patterns) d).2 f =
      if f.place = place ∧ anyExpands patterns f.name then none else d f := by
  change (if _ then Patch.put none else Patch.keep).apply (d f) = _
  split <;> rfl

theorem run_touch (t : ConfigFile) (d : ConfigDir) (f : ConfigFile) :
    (run (touch t) d).2 f = if f = t then some ((d f).getD []) else d f := by
  change (if _ then Patch.default [] else Patch.keep).apply (d f) = _
  split <;> rfl

theorem run_cp (source target : ConfigFile) (d : ConfigDir) (f : ConfigFile) :
    (run (cp source target) d).2 f =
      if f = target ∧ (d source).isSome then d source else d f := by
  change (if _ then Patch.put _ else Patch.keep).apply (d f) = _
  split <;> rfl

theorem run_cp_ok {source target : ConfigFile} {d : ConfigDir}
    (h : (run (cp source target) d).1.isOk = true) : (d source).isSome = true := by
  by_contra hmissing
  change (if (d source).isSome = true then _ else _ : Except Nat PUnit).isOk = true at h
  rw [if_neg hmissing] at h
  contradiction

theorem run_ifLabelled (c c' : Command ConfigDir PUnit) (d : ConfigDir) :
    run (ifLabelled c c') d = if outputLabel d then run c d else run c' d := by
  change run (if outputLabel d then c else c') d = _
  split <;> rfl

end Runs

section Reach

def Within (on : ConfigFile → Bool) (c : Command ConfigDir PUnit) : Prop :=
  ∀ f, on f = false → Keeps f c

def matching (place : Place) (patterns : List Text) (f : ConfigFile) : Bool :=
  f.place = place && anyExpands patterns f.name

variable {on on' : ConfigFile → Bool} {c d : Command ConfigDir PUnit}

theorem Within.bind {e : PUnit → Command ConfigDir PUnit} (hc : Within on c)
    (he : Within on' (e ⟨⟩)) : Within (fun f => on f || on' f) (c >>= e) := by
  intro f hf
  obtain ⟨h, h'⟩ := Bool.or_eq_false_iff.mp hf
  exact (hc f h).bind (he f h')

theorem Within.ite {p : Prop} [Decidable p] (hc : Within on c) (hd : Within on' d) :
    Within (fun f => on f || on' f) (if p then c else d) := by
  intro f hf
  obtain ⟨h, h'⟩ := Bool.or_eq_false_iff.mp hf
  exact (hc f h).ite (hd f h')

theorem within_still (r : Except Nat PUnit) : Within (fun _ => false) (yields r) :=
  fun _ _ => keeps_still r

theorem Within.onlyIf (b : Bool) (hc : Within on c) : Within on (onlyIf b c) :=
  fun f hf => (hc f hf).ite (keeps_still (.ok ⟨⟩))

theorem Within.ifLabelled (hc : Within on c) (hd : Within on' d) :
    Within (fun f => on f || on' f) (ifLabelled c d) :=
  fun f hf => Keeps.get_bind fun _ => Within.ite hc hd f hf

theorem within_pure : Within (fun _ => false) (pure ⟨⟩) := within_still (.ok ⟨⟩)

theorem within_cp (s t : ConfigFile) : Within (fun f => f = t) (cp s t) := by
  intro f hf
  apply keeps_laying
  intro m
  exact if_neg fun h => of_decide_eq_false hf h.1

theorem within_cpIfThere (s t : ConfigFile) : Within (fun f => f = t) (cpIfThere s t) := by
  intro f hf
  apply keeps_laying
  intro m
  exact if_neg fun h => of_decide_eq_false hf h.1

theorem within_touch (t : ConfigFile) : Within (fun f => f = t) (touch t) := by
  intro f hf
  apply keeps_laying
  intro m
  exact if_neg (of_decide_eq_false hf)

theorem matching_eq_true {place : Place} {patterns : List Text} {f : ConfigFile} :
    matching place patterns f = true ↔ f.place = place ∧ anyExpands patterns f.name = true := by
  rw [matching, Bool.and_eq_true, decide_eq_true_eq]

theorem within_rm (place : Place) (patterns : List Text) :
    Within (matching place patterns) (rm place patterns) := by
  intro f hf
  apply keeps_laying
  intro m
  exact if_neg fun h => Bool.false_ne_true (hf.symm.trans (matching_eq_true.mpr h))

theorem within_cpTemplates (templates patterns : List Text) :
    Within (matching .openshift patterns) (cpTemplates templates patterns) := by
  intro f hf
  apply keeps_laying
  intro m
  apply if_neg
  rintro ⟨hplace, -, hexpands, -⟩
  exact Bool.false_ne_true (hf.symm.trans (matching_eq_true.mpr ⟨hplace, hexpands⟩))

theorem within_cpUser (patterns : List Text) :
    Within (matching .openshift patterns) (cpUser patterns) := by
  intro f hf
  apply keeps_laying
  intro m
  apply if_neg
  rintro ⟨hplace, hexpands, -⟩
  exact Bool.false_ne_true (hf.symm.trans (matching_eq_true.mpr ⟨hplace, hexpands⟩))

theorem within_empty (name : String) :
    Within (fun f => matching .openshift [name.toList] f || f = openshift name) (empty name) :=
  (within_rm _ _).bind (within_touch _)

theorem within_enable (name : String) : Within (fun f => f = openshift name) (enable name) :=
  within_cp _ _

/-- The files that `layMux` may lay; the functions below tell so for the other parts. -/
def muxReach (f : ConfigFile) : Bool :=
  (matching .openshift muxPatterns f || (matching .openshift muxPatterns f ||
    (matching .dynamic ["input-docker-*".toList, "input-syslog-*".toList] f ||
      (matching .openshift ["input-pre-systemd.conf".toList] f ||
        f = openshift "input-pre-systemd.conf")))) ||
    (false || matching .openshift ["*mux*.conf".toList] f)

theorem within_layMux (o : Options) : Within muxReach (layMux o) := by
  apply Within.ite
  · apply Within.bind (within_cpTemplates _ _)
    apply Within.bind (within_cpUser _)
    exact (within_rm _ _).bind (within_empty _)
  · exact (within_still _).bind (within_rm _ _)

def isGenerated (f : ConfigFile) : Bool :=
  matching .dynamic ["input-docker-*.conf".toList] f ||
    f = ⟨.dynamic, "output-remote-syslog.conf".toList⟩

def clientReach (f : ConfigFile) : Bool :=
  ((f = openshift "filter-pre-mux-client-retag-raw.conf" ||
      (false || f = openshift "input-post-output.conf")) ||
    (f = openshift "output-pre-mux-client.conf" || (f = openshift "output-pre-mux-client.conf" ||
      f = openshift "filter-k8s-meta.conf"))) ||
    matching .openshift
      ["filter-pre-mux-client.conf".toList, "output-pre-mux-client.conf".toList] f

theorem within_layMuxClient (o : Options) : Within clientReach (layMuxClient o) := by
  apply Within.ite
  · apply Within.bind
    · apply Within.onlyIf
      exact (within_enable _).bind (within_pure.ifLabelled (within_enable _))
    · apply Within.bind (within_cp _ _)
      exact (within_cpIfThere _ _).bind ((within_cp _ _).onlyIf _)
  · exact within_rm _ _

def relabelReach (patterns : List Text) (enabled : String) (f : ConfigFile) : Bool :=
  matching .openshift patterns f || (f = openshift enabled || false)

theorem within_relabel (patterns : List Text) (enabled : String) :
    Within (relabelReach patterns enabled) (relabel patterns enabled) :=
  (within_rm _ _).bind ((within_enable _).ifLabelled within_pure)

def muxOutputReach (f : ConfigFile) : Bool :=
  relabelReach [zRetag] "filter-post-z-mux-client.conf" f ||
    f = ⟨.dynamic, "output-es-ops-config.conf".toList⟩

def oneOutputReach (f : ConfigFile) : Bool :=
  (matching .openshift ["output-operations.conf".toList] f ||
      f = openshift "output-operations.conf") ||
    relabelReach [zRetag, "filter-post-mux-client.conf".toList] "filter-post-z-retag-one.conf" f

def twoOutputsReach (f : ConfigFile) : Bool :=
  f = ⟨.dynamic, "output-es-ops-config.conf".toList⟩ ||
    (f = ⟨.dynamic, "output-es-ops-retry.conf".toList⟩ ||
      relabelReach [zRetag, "filter-post-mux-client.conf".toList]
        "filter-post-z-retag-two.conf" f)

theorem within_layMuxOutput : Within muxOutputReach layMuxOutput :=
  (within_relabel _ _).bind (within_cp _ _)

theorem within_layOneOutput : Within oneOutputReach layOneOutput :=
  (within_empty _).bind (within_relabel _ _)

theorem within_layTwoOutputs : Within twoOutputsReach layTwoOutputs :=
  (within_cp _ _).bind ((within_cp _ _).bind (within_relabel _ _))

def outputsReach (f : ConfigFile) : Bool :=
  muxOutputReach f || (oneOutputReach f || twoOutputsReach f)

theorem within_layOutputs (o : Options) : Within outputsReach (layOutputs o) :=
  within_layMuxOutput.ite (within_layOneOutput.ite within_layTwoOutputs)

def agentReach (name : String) (f : ConfigFile) : Bool :=
  (f = openshift name || f = openshift name) || matching .openshift [name.toList] f

theorem within_layAgent (b : Bool) (name : String) :
    Within (agentReach name) (layAgent b name) := by
  apply Within.ite
  · exact (within_enable _).bind (within_cpIfThere _ _)
  · exact within_rm _ _

theorem within_layEvents (o : Options) : Within (fun f => f = dataModelFile) (layEvents o) := by
  apply Within.onlyIf
  intro f hf
  exact keeps_rewriting (of_decide_eq_false hf)

def auditReach (f : ConfigFile) : Bool :=
  (f = openshift "input-pre-audit-log.conf" || f = openshift "filter-pre-a-audit-exclude.conf") ||
    (f = openshift "input-pre-audit-log.conf" || f = openshift "filter-pre-a-audit-exclude.conf")

theorem within_layAudit (o : Options) : Within auditReach (layAudit o) := by
  apply Within.ite
  · exact (within_enable _).bind (within_enable _)
  · exact (within_touch _).bind (within_touch _)

def filtersReach (f : ConfigFile) : Bool :=
  (matching .openshift ["filter-pre-force-utf8.conf".toList] f ||
      f = openshift "filter-pre-force-utf8.conf") ||
    ((matching .openshift ["filter-exclude-journal-debug.conf".toList] f ||
      f = openshift "filter-exclude-journal-debug.conf") ||
    matching .openshift ["input-pre-prometheus-metrics.conf".toList] f)

theorem within_layFilters (o : Options) : Within filtersReach (layFilters o) := by
  apply Within.bind ((within_empty _).onlyIf _)
  exact ((within_empty _).onlyIf _).bind ((within_rm _ _).onlyIf _)

end Reach

end AggregatedLogging.Fluentd.StartUp
