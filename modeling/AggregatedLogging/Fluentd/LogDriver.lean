import AggregatedLogging.Fluentd.Journal

/-! Whether the log driver of the containers makes a difference for the cluster
that gets their records. -/
namespace AggregatedLogging.Fluentd

open Glob

/-- The cluster for the journal's records of a container; `later` is the record
at the end of the pipeline. -/
def journalCluster (value : Option Text) (c : Container) (fields later : Record) : Option Cluster :=
  (rewriteTag retagJournal "journal".toList (c.journalRecord fields)).bind (cluster value later)

def fileCluster (value : Option Text) (c : Container) (later : Record) : Option Cluster :=
  cluster value later c.fileTag

theorem fileTag_kept (c : Container) : matchesAny keptTags c.fileTag = false := by
  have hmux : matchesTag "mux.**".toList c.fileTag = false := rfl
  have hfluentd : matchesTag "**.fluentd".toList c.fileTag = false := by
    rw [← Bool.not_eq_true, matchesTag_fluentd c.fileTag_line]
    have hlast : c.fileTag.getLast? = some 'g' := by
      rw [Container.fileTag, Container.logFile]
      simp [logSuffix, List.getLast?_append, List.getLast?_cons]
    have hhead : c.fileTag.head? = some 'k' := rfl
    rintro (⟨u, hu⟩ | h)
    · rw [← hu] at hlast
      simp at hlast
    · rw [h] at hhead
      exact absurd hhead (by decide)
  rw [matchesAny, keptTags, List.any_cons, List.any_cons, hmux, hfluentd]
  rfl

theorem fileTag_system (c : Container) : matchesAny systemTags c.fileTag = false := rfl

theorem fileCluster_iff (value : Option Text) (c : Container) (later : Record) :
    fileCluster value c later = some .operations ↔
      matchesAny (ocpFluentdTags value) c.fileTag = true ∨
        matchesAny (ocpFluentdTags value) outputTag = true := by
  rw [fileCluster, cluster_operations_iff value later c.fileTag_line, fileTag_kept, fileTag_system]
  simp

theorem Container.not_mem_markTag (c : Container) : '\n' ∉ c.markTag := by
  have hns : '\n' ∉ c.ns := not_mem_label c.ns_valid (by decide)
  have huid : '\n' ∉ c.uid := not_mem_label c.uid_valid (by decide)
  have hback : '\n' ∉ c.uid ++ '_' :: [] := Text.not_mem_split (by decide) huid (by decide)
  rw [markTag, List.mem_append, not_or]
  exact ⟨by decide, Text.not_mem_split (by decide) hns hback⟩

theorem fixedTags_checked : ∀ t ∈ fixedTags,
    (matchesAny keptTags t = true ↔ t = fluentdRule.tag) ∧ matchesAny systemTags t = false := by
  decide +kernel

theorem journalTag_line (c : Container) : '\n' ∉ c.journalTag := by
  rcases journalTag_cases c with h | h
  · exact (fixedTags_plain _ h).2.1
  · rw [h]
    exact c.not_mem_markTag

theorem markTag_not_fluentd (c : Container) : c.markTag ≠ fluentdRule.tag := by
  intro h
  have hmem : '_' ∈ c.markTag := by simp [Container.markTag]
  rw [h] at hmem
  revert hmem
  decide

theorem journalTag_kept (c : Container) :
    matchesAny keptTags c.journalTag = true ↔ c.journalTag = fluentdRule.tag := by
  rcases journalTag_cases c with h | h
  · exact (fixedTags_checked _ h).1
  · have hmux : matchesTag "mux.**".toList c.markTag = false := rfl
    have hlast : c.markTag.getLast? = some '_' := by
      simp [Container.markTag, List.getLast?_append, List.getLast?_cons]
    have hhead : c.markTag.head? = some 'k' := rfl
    have hfluentd : matchesTag "**.fluentd".toList c.markTag = false := by
      rw [← Bool.not_eq_true, matchesTag_fluentd c.not_mem_markTag]
      rintro (⟨u, hu⟩ | h)
      · rw [← hu] at hlast
        simp at hlast
      · rw [h] at hhead
        exact absurd hhead (by decide)
    rw [h, matchesAny, keptTags, List.any_cons, List.any_cons, hmux, hfluentd]
    simp [markTag_not_fluentd]

theorem journalTag_system (c : Container) : matchesAny systemTags c.journalTag = false := by
  rcases journalTag_cases c with h | h
  · exact (fixedTags_checked _ h).2
  · rw [h]
    rfl

theorem journalCluster_iff (value : Option Text) (c : Container) (fields later : Record) :
    journalCluster value c fields later = some .operations ↔
      c.journalTag ≠ fluentdRule.tag ∧
        (matchesAny (ocpFluentdTags value) c.journalTag = true ∨
          matchesAny (ocpFluentdTags value) outputTag = true) := by
  rw [journalCluster, rewriteTag_journal, Option.bind_some,
    cluster_operations_iff value later (journalTag_line c), journalTag_system]
  by_cases h : c.journalTag = fluentdRule.tag
  · have hretry : matchesAny ["retry_es_ops".toList] fluentdRule.tag = false := by decide
    have hlisted : matchesAny outputTags fluentdRule.tag = false := by decide
    have hcovers : matchesAny (ocpFluentdTags value) fluentdRule.tag = false :=
      not_covers (by decide)
    rw [if_pos ((journalTag_kept c).mpr h), h, outputCluster, hretry, hlisted, hcovers]
    simp
  · rw [if_neg fun hkept => h ((journalTag_kept c).mp hkept)]
    simp [h]

/-- When the records of a container have the same cluster on both ways, whatever
the variable holds. -/
def SameCluster (value : Option Text) (c : Container) : Prop :=
  if c.journalTag = fluentdRule.tag then
    matchesAny (ocpFluentdTags value) c.fileTag = false ∧
      matchesAny (ocpFluentdTags value) outputTag = false
  else
    matchesAny (ocpFluentdTags value) outputTag = true ∨
      (matchesAny (ocpFluentdTags value) c.journalTag = true ↔
        matchesAny (ocpFluentdTags value) c.fileTag = true)

/-- The same in terms of the listed namespaces: the journal's rules have their
own list. -/
def SameNamespaces (value : Option Text) (c : Container) : Prop :=
  if c.name = "kibana".toList then ¬ lists value c.ns
  else if eventRouterPod <+: c.pod ∧ c.pod ≠ eventRouterPod then
    (lists value "default".toList ↔ lists value c.ns)
  else if c.ns = "default".toList ∨ c.ns = "openshift".toList then True
  else if "kube-".toList <+: c.ns ∨ "openshift-".toList <+: c.ns then
    lists value c.uid ∨ lists value (c.ns ++ '_' :: c.uid) → lists value c.ns
  else ¬ lists value c.ns

theorem sameCluster_iff (value : Option Text) (c : Container) (fields later later' : Record) :
    (journalCluster value c fields later = some .operations ↔
      fileCluster value c later' = some .operations) ↔ SameCluster value c := by
  rw [journalCluster_iff, fileCluster_iff, SameCluster]
  by_cases h : c.journalTag = fluentdRule.tag
  · simp [h]
  · rw [if_neg h]
    cases matchesAny (ocpFluentdTags value) outputTag <;> simp [h]

theorem covers_outputTag {value : Option Text}
    (hwords : ∀ p ∈ operationsProjects value, p.all isWordChar = true) :
    matchesAny (ocpFluentdTags value) outputTag = false := by
  rw [← Bool.not_eq_true, covers_enclosed hwords (by decide)]
  exact not_enclosed_one (a := "output".toList) (b := "tag".toList) (by decide) (by decide)

theorem covers_fixed {value : Option Text}
    (hwords : ∀ p ∈ operationsProjects value, p.all isWordChar = true) {n b t : Text}
    (ht : t = containerTag ++ '_' :: (n ++ '_' :: b)) (hn : '_' ∉ n)
    (hb : '_' ∉ b) (hline : '\n' ∉ t) :
    matchesAny (ocpFluentdTags value) t = true ↔ lists value n := by
  rw [covers_enclosed hwords hline, ht]
  exact enclosed_two (by decide) hn hb

/-- In the tag with the identifier three underscores leave three texts for the
patterns. -/
theorem covers_markTag {value : Option Text}
    (hwords : ∀ p ∈ operationsProjects value, p.all isWordChar = true) (c : Container) :
    matchesAny (ocpFluentdTags value) c.markTag = true ↔
      lists value c.ns ∨ lists value c.uid ∨ lists value (c.ns ++ '_' :: c.uid) := by
  have hns : '_' ∉ c.ns := not_mem_label c.ns_valid (by decide)
  have huid : '_' ∉ c.uid := not_mem_label c.uid_valid (by decide)
  have hparts : c.markTag = containerTag ++ '_' :: (c.ns ++ '_' :: (c.uid ++ '_' :: [])) := by
    rw [Container.markTag, markStart, List.append_assoc]
    rfl
  rw [covers_enclosed hwords c.not_mem_markTag, hparts]
  exact enclosed_three (by decide) hns huid (by decide)

theorem sameCluster_tag {value : Option Text}
    (hwords : ∀ p ∈ operationsProjects value, p.all isWordChar = true) {c : Container} {t : Text}
    (ht : c.journalTag = t) (hne : t ≠ fluentdRule.tag) {P : Prop}
    (hP : matchesAny (ocpFluentdTags value) t = true ↔ P) :
    SameCluster value c ↔ (P ↔ lists value c.ns) := by
  rw [SameCluster, ht, if_neg hne, covers_outputTag hwords, hP, covers_fileTag hwords]
  simp

/-- For names and patterns of namespaces, case by case along the journal's
rules. -/
theorem sameCluster_namespaces {value : Option Text}
    (hwords : ∀ p ∈ operationsProjects value, p.all isWordChar = true) (c : Container) :
    SameCluster value c ↔ SameNamespaces value c := by
  have hplain {t : Text} (ht : c.journalTag = t) (hne : t ≠ fluentdRule.tag) (hs : '_' ∉ t) :
      SameCluster value c ↔ ¬ lists value c.ns := by
    rw [sameCluster_tag hwords ht hne (P := False) (by rw [not_covers hs]; simp)]
    simp
  have hmark (ht : c.journalTag = c.markTag) : SameCluster value c ↔
      (lists value c.uid ∨ lists value (c.ns ++ '_' :: c.uid) → lists value c.ns) := by
    rw [sameCluster_tag hwords ht (markTag_not_fluentd c) (covers_markTag hwords c)]
    tauto
  have hfixed {t n b : Text} (ht : c.journalTag = t) (hne : t ≠ fluentdRule.tag)
      (hparts : t = containerTag ++ '_' :: (n ++ '_' :: b)) (hn : '_' ∉ n) (hb : '_' ∉ b)
      (hline : '\n' ∉ t) : SameCluster value c ↔ (lists value n ↔ lists value c.ns) :=
    sameCluster_tag hwords ht hne (covers_fixed hwords hparts hn hb hline)
  have htag := Container.journalTag.eq_def c
  unfold SameNamespaces
  by_cases hkibana : c.name = "kibana".toList
  · rw [if_pos hkibana] at htag ⊢
    exact hplain htag (by decide) (by decide)
  rw [if_neg hkibana] at htag ⊢
  by_cases hevent : eventRouterPod <+: c.pod ∧ c.pod ≠ eventRouterPod
  · rw [if_pos hevent] at htag ⊢
    exact hfixed (n := "default".toList) (b := ".kubernetes-event".toList) htag (by decide)
      (by decide +kernel) (by decide) (by decide) (by decide)
  rw [if_neg hevent] at htag ⊢
  by_cases hdefault : c.ns = "default".toList
  · rw [if_pos hdefault] at htag
    have hsame := hfixed (n := "default".toList) (b := []) htag (by decide)
      (by decide +kernel) (by decide) (by decide) (by decide)
    rw [if_pos (.inl hdefault), hsame, hdefault]
    simp
  rw [if_neg hdefault] at htag
  by_cases hkube : "kube-".toList <+: c.ns
  · have hopenshift : c.ns ≠ "openshift".toList := by
      intro h
      rw [h] at hkube
      revert hkube
      decide
    rw [if_pos hkube] at htag
    rw [if_neg (not_or.mpr ⟨hdefault, hopenshift⟩), if_pos (.inl hkube)]
    exact hmark htag
  rw [if_neg hkube] at htag
  by_cases hdash : "openshift-".toList <+: c.ns
  · have hopenshift : c.ns ≠ "openshift".toList := by
      intro h
      rw [h] at hdash
      revert hdash
      decide
    rw [if_pos hdash] at htag
    rw [if_neg (not_or.mpr ⟨hdefault, hopenshift⟩), if_pos (.inr hdash)]
    exact hmark htag
  rw [if_neg hdash] at htag
  by_cases hopenshift : c.ns = "openshift".toList
  · rw [if_pos hopenshift] at htag
    have hsame := hfixed (n := "openshift".toList) (b := []) htag (by decide)
      (by decide +kernel) (by decide) (by decide) (by decide)
    rw [if_pos (.inr hopenshift), hsame, hopenshift]
    simp
  rw [if_neg hopenshift] at htag
  rw [if_neg (not_or.mpr ⟨hdefault, hopenshift⟩), if_neg (not_or.mpr ⟨hkube, hdash⟩)]
  by_cases hfluentd : "fluentd".toList <:+: c.nameFields
  · rw [if_pos hfluentd] at htag
    rw [SameCluster, if_pos htag, covers_outputTag hwords, ← Bool.not_eq_true,
      covers_fileTag hwords]
    simp
  · rw [if_neg hfluentd] at htag
    exact hplain htag (by decide) (by decide)

/-- The two ways agree for a container exactly under the condition above, for
any variable whose words stand for themselves; for names and patterns of namespaces it
is a condition on the listed namespaces. -/
theorem logDriver_agrees_iff (value : Option Text) (c : Container) :
    (∀ files, Literal files value → Listed files value) ∧
      ((∀ fields later later' : Record,
        (journalCluster value c fields later = some .operations ↔
          fileCluster value c later' = some .operations)) ↔ SameCluster value c) ∧
      ((∀ p ∈ operationsProjects value, p.all isWordChar = true) →
        (SameCluster value c ↔ SameNamespaces value c)) := by
  refine ⟨fun _ hliteral => hliteral.listed, ?_, ?_⟩
  · constructor
    · intro h
      exact (sameCluster_iff value c (fun _ => []) (fun _ => []) (fun _ => [])).mp (h _ _ _)
    · intro h fields later later'
      exact (sameCluster_iff value c fields later later').mpr h
  · intro hwords
    exact sameCluster_namespaces hwords c

def auditPod : Container where
  pod := "audit-1-x7k2p".toList
  ns := "security".toList
  name := "audit".toList
  id := "0123456789ab".toList
  hash := "a67f366".toList
  uid := "26c51a61-2835-11e6".toList
  attempt := "0".toList
  pod_valid := Eq.refl true
  ns_valid := Eq.refl true
  name_valid := Eq.refl true
  id_valid := Eq.refl true
  hash_valid := Eq.refl true
  uid_valid := Eq.refl true
  attempt_valid := Eq.refl true

def securityProjects : Option Text := some "default openshift openshift- kube- security".toList

theorem logDriver_agrees_auditPod :
    Listed ["run.sh".toList] securityProjects ∧
      ((∀ fields later later' : Record,
        (journalCluster securityProjects auditPod fields later = some .operations ↔
          fileCluster securityProjects auditPod later' = some .operations)) ↔
        SameCluster securityProjects auditPod) ∧
      (SameCluster securityProjects auditPod ↔ SameNamespaces securityProjects auditPod) :=
  have hagrees := logDriver_agrees_iff securityProjects auditPod
  ⟨hagrees.1 _ (.of_all (by decide) (by decide)), hagrees.2.1, hagrees.2.2 (by decide)⟩

/-- Its records are operations records in the log file and not in the journal. -/
theorem logDriver_disagrees :
    ¬ ∀ (value : Option Text) (c : Container) (fields later later' : Record),
      (journalCluster value c fields later = some .operations ↔
        fileCluster value c later' = some .operations) := by
  intro h
  have hwords : ∀ p ∈ operationsProjects securityProjects, p.all isWordChar = true := by decide
  have hlists : lists securityProjects auditPod.ns := ⟨"security".toList, by decide, by decide⟩
  have hsame := (sameCluster_iff securityProjects auditPod (fun _ => []) (fun _ => [])
    (fun _ => [])).mp (h _ _ _ _ _)
  rw [sameCluster_namespaces hwords, SameNamespaces, if_neg (by decide), if_neg (by decide),
    if_neg (by decide), if_neg (by decide)] at hsame
  exact hsame hlists

end AggregatedLogging.Fluentd
