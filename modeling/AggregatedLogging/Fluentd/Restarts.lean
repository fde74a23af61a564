import AggregatedLogging.Fluentd.Marks

/-! A container that is started again in the same environment. -/
namespace AggregatedLogging.Fluentd.StartUp

open Calls Shell Overlay

def keptNames : List Text :=
  ["output-es-ops-config.conf".toList, "output-es-ops-retry.conf".toList,
    "filter-viaq-data-model.conf".toList]

/-- The files that are copied, and never laid. -/
def isSource (f : ConfigFile) : Bool :=
  f.place = .root || f.place = .user || f = openshift "output-es-ops-config.conf" ||
    f = openshift "output-es-ops-retry.conf"

def Laid (c : Command ConfigDir PUnit) : Prop :=
  Lays (fun f => isSource f = true) (fun f => f = dataModelFile) c

theorem isSource_not_free : ∀ f, isSource f = true → ¬ f = dataModelFile := by
  rintro f h rfl
  exact absurd h (by decide)

theorem Laid.bind {c : Command ConfigDir PUnit} {d : PUnit → Command ConfigDir PUnit}
    (hc : Laid c) (hd : Laid (d ⟨⟩)) : Laid (c >>= d) :=
  Lays.bind isSource_not_free hc hd

theorem laid_yields (e : Except Nat PUnit) : Laid (yields e) := lays_still e

theorem laid_onlyIf {c : Command ConfigDir PUnit} (b : Bool) (hc : Laid c) : Laid (onlyIf b c) :=
  Lays.ite hc (lays_still (.ok ⟨⟩))

theorem laid_ifLabelled {c d : Command ConfigDir PUnit} (hc : Laid c) (hd : Laid d) :
    Laid (ifLabelled c d) := by
  apply Lays.get_ite _ hc hd
  intro m m' h
  rw [outputLabel, outputLabel, h.same fluentConf (by decide)]

theorem laid_laying {patch : ConfigDir → ConfigFile → Patch (List Text)}
    {ends : ConfigDir → Except Nat PUnit}
    (hcongr : ∀ {m m' : ConfigDir}, (∀ f, isSource f = true → m f = m' f) → patch m = patch m')
    (hends : ∀ {m m' : ConfigDir}, (∀ f, isSource f = true → m f = m' f) → ends m = ends m')
    (hkeep : ∀ m f, isSource f = true ∨ f = dataModelFile → patch m f = .keep) :
    Laid (laying patch ends) :=
  lays_laying (fun h => hcongr h.same) (fun h => hends h.same) (fun m f hf => hkeep m f (.inl hf))
    fun m f hf => hkeep m f (.inr hf)

def Target (t : ConfigFile) : Prop := isSource t = false ∧ t ≠ dataModelFile

instance (t : ConfigFile) : Decidable (Target t) := inferInstanceAs (Decidable (_ ∧ _))

theorem Target.not_kept {t : ConfigFile} (ht : Target t) :
    ¬ (isSource t = true ∨ t = dataModelFile) := by
  rintro (h | h)
  · exact Bool.false_ne_true (ht.1.symm.trans h)
  · exact ht.2 h

theorem laid_cp {s t : ConfigFile} (hs : isSource s = true) (ht : Target t) : Laid (cp s t) := by
  apply laid_laying
  · intro m m' h
    rw [h s hs]
  · intro m m' h
    rw [h s hs]
  · rintro m f hf
    apply if_neg
    rintro ⟨rfl, -⟩
    exact ht.not_kept hf

theorem laid_cpIfThere {s t : ConfigFile} (hs : isSource s = true) (ht : Target t) :
    Laid (cpIfThere s t) := by
  apply laid_laying
  · intro m m' h
    rw [h s hs]
  · intro m m' h
    rfl
  · rintro m f hf
    apply if_neg
    rintro ⟨rfl, -⟩
    exact ht.not_kept hf

theorem laid_touch {t : ConfigFile} (ht : Target t) : Laid (touch t) := by
  apply laid_laying
  · intro m m' h
    rfl
  · intro m m' h
    rfl
  · rintro m f hf
    apply if_neg
    rintro rfl
    exact ht.not_kept hf

theorem kept_name {f : ConfigFile} (hf : isSource f = true ∨ f = dataModelFile)
    (hplace : f.place = .openshift ∨ f.place = .dynamic) : f.name ∈ keptNames := by
  rcases hf with hf | rfl
  · unfold isSource at hf
    rcases hplace with hplace | hplace
    · rw [hplace] at hf
      rcases f with ⟨place, name⟩
      simp only [Bool.or_eq_true, decide_eq_true_eq, reduceCtorEq, false_or] at hf
      rcases hf with hf | hf
      · cases hf
        decide
      · cases hf
        decide
    · rw [hplace] at hf
      simp only [Bool.or_eq_true, decide_eq_true_eq, reduceCtorEq, false_or] at hf
      rcases hf with rfl | rfl <;> contradiction
  · decide

theorem laid_rm {place : Place} {patterns : List Text}
    (hplace : place = .openshift ∨ place = .dynamic)
    (h : ∀ n ∈ keptNames, anyExpands patterns n = false) : Laid (rm place patterns) := by
  apply laid_laying
  · intro m m' _
    rfl
  · intro m m' _
    rfl
  · rintro m f hf
    apply if_neg
    rintro ⟨rfl, hexpands⟩
    rw [h f.name (kept_name hf hplace)] at hexpands
    contradiction

theorem laid_cpTemplates {templates patterns : List Text}
    (h : ∀ n ∈ keptNames, anyExpands patterns n = false) :
    Laid (cpTemplates templates patterns) := by
  apply laid_laying
  · intro m m' hsame
    funext f
    rw [hsame ⟨.root, f.name⟩ rfl]
  · intro m m' hsame
    have hroot (n : Text) : m ⟨.root, n⟩ = m' ⟨.root, n⟩ := hsame _ rfl
    simp only [hroot]
  · rintro m f hf
    apply if_neg
    rintro ⟨hplace, -, hexpands, -⟩
    rw [h f.name (kept_name hf (.inl hplace))] at hexpands
    contradiction

theorem laid_cpUser {patterns : List Text} (h : ∀ n ∈ keptNames, anyExpands patterns n = false) :
    Laid (cpUser patterns) := by
  apply laid_laying
  · intro m m' hsame
    funext f
    rw [hsame ⟨.user, f.name⟩ rfl]
  · intro m m' _
    rfl
  · rintro m f hf
    apply if_neg
    rintro ⟨hplace, hexpands, -⟩
    rw [h f.name (kept_name hf (.inl hplace))] at hexpands
    contradiction

def laidFiles : List ConfigFile :=
  [openshift "input-pre-systemd.conf", openshift "filter-pre-mux-client-retag-raw.conf",
    openshift "input-post-output.conf", openshift "output-pre-mux-client.conf",
    openshift "filter-k8s-meta.conf", openshift "filter-post-z-mux-client.conf",
    openshift "filter-post-z-retag-one.conf", openshift "filter-post-z-retag-two.conf",
    openshift "output-operations.conf", openshift "input-pre-monitor.conf",
    openshift "input-pre-debug.conf", openshift "input-pre-audit-log.conf",
    openshift "filter-pre-a-audit-exclude.conf", openshift "filter-pre-force-utf8.conf",
    openshift "filter-exclude-journal-debug.conf",
    ⟨.dynamic, "output-es-ops-config.conf".toList⟩, ⟨.dynamic, "output-es-ops-retry.conf".toList⟩]

theorem laidFiles_target : ∀ f ∈ laidFiles, Target f := by
  decide

theorem target_of_mem (f : ConfigFile)
    (h : f ∈ laidFiles := by
      simp only [laidFiles, List.mem_cons, true_or, or_true]) : Target f :=
  laidFiles_target f h

/-- The patterns by which it copies or removes files. -/
def laidPatterns : List (List Text) :=
  [muxPatterns, ["input-docker-*".toList, "input-syslog-*".toList], ["*mux*.conf".toList],
    ["input-pre-systemd.conf".toList],
    ["filter-pre-mux-client.conf".toList, "output-pre-mux-client.conf".toList], [zRetag],
    [zRetag, "filter-post-mux-client.conf".toList], ["output-operations.conf".toList],
    ["input-pre-monitor.conf".toList], ["input-pre-debug.conf".toList],
    ["filter-pre-force-utf8.conf".toList], ["filter-exclude-journal-debug.conf".toList],
    ["input-pre-prometheus-metrics.conf".toList]]

theorem pattern_of_mem : ∀ patterns ∈ laidPatterns, ∀ n ∈ keptNames,
    anyExpands patterns n = false := by
  decide

theorem laid_rm_mem {place : Place} {patterns : List Text}
    (hplace : place = .openshift ∨ place = .dynamic)
    (h : patterns ∈ laidPatterns := by
      simp only [laidPatterns, List.mem_cons, true_or, or_true]) :
    Laid (rm place patterns) :=
  laid_rm hplace (pattern_of_mem patterns h)

theorem laid_enable {name : String}
    (h : openshift name ∈ laidFiles := by
      simp only [laidFiles, List.mem_cons, true_or, or_true]) :
    Laid (enable name) :=
  laid_cp rfl (laidFiles_target _ h)

theorem laid_empty {name : String}
    (h : openshift name ∈ laidFiles := by
      simp only [laidFiles, List.mem_cons, true_or, or_true])
    (hpattern : [name.toList] ∈ laidPatterns := by
      simp only [laidPatterns, List.mem_cons, true_or, or_true]) :
    Laid (empty name) :=
  (laid_rm_mem (.inl rfl) hpattern).bind (laid_touch (laidFiles_target _ h))

theorem laid_offer {name : String} (hs : isSource (openshift name) = true)
    (h : ⟨.dynamic, name.toList⟩ ∈ laidFiles := by
      simp only [laidFiles, List.mem_cons, true_or, or_true]) :
    Laid (offer name) :=
  laid_cp hs (laidFiles_target _ h)

theorem laid_layMux (o : Options) : Laid (layMux o) := by
  have hpatterns : muxPatterns ∈ laidPatterns := List.mem_cons_self
  apply Lays.ite
  · apply Laid.bind (laid_cpTemplates (pattern_of_mem _ hpatterns))
    apply Laid.bind (laid_cpUser (pattern_of_mem _ hpatterns))
    apply Laid.bind (laid_rm_mem (.inr rfl))
    exact laid_empty
  · exact (laid_yields _).bind (laid_rm_mem (.inl rfl))

theorem laid_layMuxClient (o : Options) : Laid (layMuxClient o) := by
  have houtput := target_of_mem (openshift "output-pre-mux-client.conf")
  apply Lays.ite
  · apply Laid.bind
    · apply laid_onlyIf
      apply Laid.bind laid_enable
      exact laid_ifLabelled (laid_yields (.ok ⟨⟩)) laid_enable
    · apply Laid.bind (laid_cp rfl houtput)
      apply Laid.bind (laid_cpIfThere rfl houtput)
      exact laid_onlyIf _ (laid_cp rfl (target_of_mem _))
  · exact laid_rm_mem (.inl rfl)

theorem laid_relabel {patterns : List Text} {enabled : String}
    (hpattern : patterns ∈ laidPatterns := by
      simp only [laidPatterns, List.mem_cons, true_or, or_true])
    (h : openshift enabled ∈ laidFiles := by
      simp only [laidFiles, List.mem_cons, true_or, or_true]) :
    Laid (relabel patterns enabled) :=
  (laid_rm_mem (.inl rfl) hpattern).bind
    (laid_ifLabelled (laid_enable h) (laid_yields (.ok ⟨⟩)))

theorem laid_layMuxOutput : Laid layMuxOutput := by
  apply Laid.bind laid_relabel
  exact laid_offer (by decide)

theorem laid_layOneOutput : Laid layOneOutput :=
  Laid.bind laid_empty laid_relabel

theorem laid_layTwoOutputs : Laid layTwoOutputs := by
  apply Laid.bind (laid_offer (by decide))
  apply Laid.bind (laid_offer (by decide))
  exact laid_relabel

theorem laid_layOutputs (o : Options) : Laid (layOutputs o) :=
  Lays.ite laid_layMuxOutput (Lays.ite laid_layOneOutput laid_layTwoOutputs)

theorem laid_layAgent (b : Bool) {name : String}
    (h : openshift name ∈ laidFiles := by
      simp only [laidFiles, List.mem_cons, true_or, or_true])
    (hpattern : [name.toList] ∈ laidPatterns := by
      simp only [laidPatterns, List.mem_cons, true_or, or_true]) :
    Laid (layAgent b name) := by
  apply Lays.ite
  · exact (laid_enable h).bind (laid_cpIfThere rfl (laidFiles_target _ h))
  · exact laid_rm_mem (.inl rfl) hpattern

theorem laid_layAudit (o : Options) : Laid (layAudit o) := by
  have hinput := target_of_mem (openshift "input-pre-audit-log.conf")
  have hfilter := target_of_mem (openshift "filter-pre-a-audit-exclude.conf")
  apply Lays.ite
  · exact Laid.bind laid_enable laid_enable
  · exact (laid_touch hinput).bind (laid_touch hfilter)

theorem laid_layFilters (o : Options) : Laid (layFilters o) := by
  apply Laid.bind (laid_onlyIf _ laid_empty)
  apply Laid.bind (laid_onlyIf _ laid_empty)
  exact laid_onlyIf _ (laid_rm_mem (.inl rfl))

theorem laid_layEvents (o : Options) : Laid (layEvents o) := laid_onlyIf _ (lays_rewriting rfl)

theorem laid_layOut (bc : Text → Option Text) (o : Options) : Laid (layOut bc o) := by
  apply Laid.bind (laid_layMux o)
  apply Laid.bind (laid_layMuxClient o)
  apply Laid.bind (laid_yields _)
  apply Laid.bind (laid_layOutputs o)
  apply Laid.bind (laid_yields _)
  apply Laid.bind (laid_layAgent _)
  apply Laid.bind (laid_layAgent _)
  apply Laid.bind (laid_yields _)
  apply Laid.bind (laid_layEvents o)
  apply Laid.bind (laid_layAudit o)
  exact laid_layFilters o

def eventsEdit (o : Options) : List Text → List Text :=
  if disablesEvents o then withoutEvents else id

theorem layOut_dataModel (bc : Text → Option Text) (o : Options) :
    Gives dataModelFile (fun d => (d dataModelFile).map (eventsEdit o)) (layOut bc o) := by
  have hafter {c : Command ConfigDir PUnit} (hc : Keeps dataModelFile c) (d : ConfigDir) :
      ((run c d).2 dataModelFile).map (eventsEdit o) = (d dataModelFile).map (eventsEdit o) := by
    rw [hc]
  apply Gives.after (hafter (within_layMux o _ (by decide)))
  apply Gives.after (hafter (within_layMuxClient o _ (by decide)))
  apply Gives.after (hafter (keeps_still _))
  apply Gives.after (hafter (within_layOutputs o _ (by decide)))
  apply Gives.after (hafter (keeps_still _))
  apply Gives.after (hafter (within_layAgent _ _ _ (by decide)))
  apply Gives.after (hafter (within_layAgent _ _ _ (by decide)))
  apply Gives.after (hafter (keeps_still _))
  have hkeeps := (within_layAudit o dataModelFile (by decide)).bind
    (e := fun _ => layFilters o) (within_layFilters o _ (by decide))
  apply Gives.bind_keeps _ hkeeps
  intro d _
  unfold layEvents onlyIf eventsEdit
  split
  · exact run_rewriting dataModelFile withoutEvents 2 d
  · exact Option.map_id_apply.symm

def marked (n : Nat) (lines : List Text) : List Text :=
  lines.flatMap fun line =>
    if isDataModel line then line :: List.replicate n noEvents else [line]

theorem marked_zero (lines : List Text) : marked 0 lines = lines := by
  unfold marked
  simp only [List.replicate_zero, ite_self]
  exact List.flatMap_singleton' lines

theorem withoutEvents_marked (n : Nat) (lines : List Text) :
    withoutEvents (marked n lines) = marked (n + 1) lines := by
  have hnoEvents : isDataModel noEvents = false := by decide
  unfold withoutEvents marked
  rw [List.flatMap_assoc]
  congr 1
  funext line
  split
  · rename_i hline
    rw [List.flatMap_cons, if_pos hline, List.flatMap_replicate, hnoEvents,
      if_neg Bool.false_ne_true, List.flatten_replicate_singleton]
    rfl
  · rename_i hline
    rw [List.flatMap_singleton, if_neg hline]

theorem eventsEdit_iterate (o : Options) (n : Nat) (lines : List Text) :
    (eventsEdit o)^[n] lines = if disablesEvents o then marked n lines else lines := by
  unfold eventsEdit
  split
  · induction n with
    | zero => exact (marked_zero lines).symm
    | succ n ih => rw [Function.iterate_succ_apply', ih, withoutEvents_marked]
  · exact congrFun (Function.iterate_id n) lines

def restarted (bc : Text → Option Text) (o : Options) (n : Nat) (d : ConfigDir) : ConfigDir :=
  (fun d => (run (start bc o) d).2)^[n] d

theorem restarted_unmarked (bc : Text → Option Text) (o : Options) {d : ConfigDir}
    (h : Unmarked d) (n : Nat) :
    restarted bc o n d = (fun d => (run (layOut bc o) d).2)^[n] d ∧
      Unmarked (restarted bc o n d) := by
  induction n with
  | zero => exact ⟨rfl, h⟩
  | succ n ih =>
    have hstart : restarted bc o (n + 1) d = (run (layOut bc o) (restarted bc o n d)).2 := by
      rw [restarted, Function.iterate_succ_apply']
      exact congrArg Prod.snd (run_start_unmarked bc o ih.2)
    constructor
    · rw [hstart, Function.iterate_succ_apply', ih.1]
    · rw [hstart]
      exact clean_layOut bc o _ ih.2

theorem restarted_succ (bc : Text → Option Text) (o : Options) {d : ConfigDir}
    (hmarks : Unmarked (substituted o.tags d)) (n : Nat) :
    restarted bc o (n + 1) d =
        (fun d => (run (layOut bc o) d).2)^[n + 1] (substituted o.tags d) ∧
      Unmarked (restarted bc o (n + 1) d) := by
  have hfirst : Unmarked (run (layOut bc o) (substituted o.tags d)).2 :=
    clean_layOut bc o _ hmarks
  have hlater := restarted_unmarked bc o hfirst n
  have hshift : restarted bc o (n + 1) d =
      restarted bc o n (run (layOut bc o) (substituted o.tags d)).2 :=
    Function.iterate_succ_apply _ n d
  rw [hshift, Function.iterate_succ_apply]
  exact hlater

theorem iterate_dataModel {bc : Text → Option Text} {o : Options} {d : ConfigDir}
    (hok : (run (layOut bc o) d).1.isOk = true) (n : Nat) :
    (fun d => (run (layOut bc o) d).2)^[n] d dataModelFile =
      (d dataModelFile).map (eventsEdit o)^[n] := by
  induction n with
  | zero => exact Option.map_id_apply.symm
  | succ n ih =>
    have hends := ((laid_layOut bc o).iterate isSource_not_free d n).1
    have hstep := layOut_dataModel bc o _ (by rw [hends, hok])
    rw [Function.iterate_succ_apply', hstep]
    change (((fun d => (run (layOut bc o) d).2)^[n] d dataModelFile).map (eventsEdit o)) = _
    rw [ih, Option.map_map, Function.iterate_succ']

/-- However often the container starts in the same environment, the script ends as it
did at first, and the files stay what they were after the first start.  Only the file
of the data model gets another line with each start that disables the events. -/
theorem start_again (bc : Text → Option Text) (o : Options) {d : ConfigDir}
    (hmarks : Unmarked (substituted o.tags d)) (n : Nat) :
    (run (start bc o) (restarted bc o n d)).1 = (run (start bc o) d).1 ∧
      (∀ f, f ≠ dataModelFile → isGenerated f = false →
        restarted bc o (n + 1) d f = restarted bc o 1 d f) ∧
      ((run (start bc o) d).1.isOk = true → restarted bc o (n + 1) d dataModelFile =
        (substituted o.tags d dataModelFile).map fun lines =>
          if disablesEvents o then marked (n + 1) lines else lines) := by
  have hiterate := (laid_layOut bc o).iterate isSource_not_free (substituted o.tags d)
  refine ⟨?_, fun f hf _ => ?_, fun hok => ?_⟩
  · cases n with
    | zero => rfl
    | succ n =>
      obtain ⟨hstate, hclean⟩ := restarted_succ bc o hmarks n
      rw [run_start_unmarked bc o hclean, hstate, (hiterate (n + 1)).1, run_start]
  · rw [(restarted_succ bc o hmarks n).1]
    exact (hiterate n).2 f hf
  · rw [(restarted_succ bc o hmarks n).1, iterate_dataModel hok]
    congr 1
    funext lines
    exact eventsEdit_iterate o (n + 1) lines

def markedDir : ConfigDir := fun _ =>
  some ["<label @OUTPUT>".toList, "  @type viaq_data_model".toList, "%OCP_FLUENTD_TAGS%".toList]

def defaultOptions : Options := { plainSetup with templates := [], tags := fluentdTags [] none }

theorem markedDir_unmarked : Unmarked (substituted defaultOptions.tags markedDir) := by
  rintro f lines ⟨⟩
  exact plain_of_percent (by decide)

theorem start_again_default :
    restarted bcProduct defaultOptions 2 markedDir dataModelFile =
      some ["<label @OUTPUT>".toList, "  @type viaq_data_model".toList, noEvents, noEvents,
        " **_default_** **_openshift_** **_openshift-*_** **_kube-*_**".toList] :=
  ((start_again bcProduct defaultOptions markedDir_unmarked 1).2.2 (by decide)).trans (by decide)

end AggregatedLogging.Fluentd.StartUp
