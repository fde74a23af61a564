import AggregatedLogging.Fluentd.Outputs
import Mathlib.Data.List.Infix

/-! Container logs that arrive through the journal: the tags that
`filter-retag-journal.conf` gives them. -/
namespace AggregatedLogging.Fluentd

open Glob Regex

def containerNameKey : Text := "CONTAINER_NAME".toList

def containerRule (pattern tag : Text) : Rule := ⟨containerNameKey, pattern, tag, false⟩

def kibanaRule : Rule :=
  containerRule "^k8s_kibana\\.".toList "kubernetes.journal.container.kibana".toList

def eventRouterRule : Rule :=
  containerRule "^k8s_[^_]+_logging-eventrouter-[^_]+_".toList
    "kubernetes.journal.container._default_.kubernetes-event".toList

def defaultRule : Rule :=
  containerRule "^k8s_[^_]+_[^_]+_default_".toList "kubernetes.journal.container._default_".toList

def kubeRule : Rule :=
  containerRule "^k8s_[^_]+_[^_]+_kube-(.+)_".toList
    "kubernetes.journal.container._kube-$1_".toList

def openshiftDashRule : Rule :=
  containerRule "^k8s_[^_]+_[^_]+_openshift-(.+)_".toList
    "kubernetes.journal.container._openshift-$1_".toList

def openshiftRule : Rule :=
  containerRule "^k8s_[^_]+_[^_]+_openshift_".toList
    "kubernetes.journal.container._openshift_".toList

def fluentdRule : Rule :=
  containerRule "^k8s_.*fluentd".toList "kubernetes.journal.container.fluentd".toList

def kubernetesRule : Rule :=
  containerRule "^k8s_".toList "kubernetes.journal.container".toList

def systemRule : Rule := ⟨"_TRANSPORT".toList, ".+".toList, "journal.system".toList, false⟩

def retagJournal : List Rule :=
  [kibanaRule, eventRouterRule, defaultRule, kubeRule, openshiftDashRule, openshiftRule,
    fluentdRule, kubernetesRule, systemRule]

def fixedTags : List Text :=
  [kibanaRule.tag, eventRouterRule.tag, defaultRule.tag, openshiftRule.tag, fluentdRule.tag,
    kubernetesRule.tag]

theorem fixedTags_plain : ∀ s ∈ fixedTags, '$' ∉ s ∧ '\n' ∉ s ∧ s.head? = some 'k' := by
  decide +kernel

theorem fixedTags_expand {s : Text} (hs : s ∈ fixedTags) (tag : Text) (group : Nat → Text) :
    expand tag group s = s := expand_plain (fixedTags_plain s hs).1 tag group

def containerTag : Text := "kubernetes.journal.container.".toList

def markStart : Text := containerTag ++ ['_']

def eventRouterPod : Text := "logging-eventrouter-".toList

def anchored (a : Node) : Node := .seq (.atom (.at .lineStart)) (litsThen nameHeader a)

/-- A pattern for the fields of a container name, from the namespace on. -/
def namespaceNode (a : Node) : Node := field '_' (field '_' a)

theorem kube_compile : compile .ruby kubeRule.pattern =
    some ⟨anchored (namespaceNode (litsThen "kube-".toList (lastField 1 '_'))), 1, [],
      Dialect.ruby.flags⟩ := rfl

theorem openshiftDash_compile : compile .ruby openshiftDashRule.pattern =
    some ⟨anchored (namespaceNode (litsThen "openshift-".toList (lastField 1 '_'))), 1, [],
      Dialect.ruby.flags⟩ := rfl

theorem kube_expand (tag : Text) (group : Nat → Text) :
    expand tag group kubeRule.tag = markStart ++ ("kube-".toList ++ (group 1 ++ ['_'])) := by
  have htag : kubeRule.tag = (markStart ++ "kube-".toList) ++ '$' :: '1' :: ['_'] := by
    decide +kernel
  rw [htag, expand_group (by decide +kernel) (by decide), List.append_assoc]

theorem openshiftDash_expand (tag : Text) (group : Nat → Text) :
    expand tag group openshiftDashRule.tag =
      markStart ++ ("openshift-".toList ++ (group 1 ++ ['_'])) := by
  have htag : openshiftDashRule.tag =
      (markStart ++ "openshift-".toList) ++ '$' :: '1' :: ['_'] := by
    decide +kernel
  rw [htag, expand_group (by decide +kernel) (by decide), List.append_assoc]

namespace Container

def nameFields (c : Container) : Text :=
  (c.name ++ '.' :: c.hash) ++ '_' :: (c.pod ++ '_' :: (c.ns ++ '_' :: (c.uid ++ '_' :: c.attempt)))

theorem containerName_eq (c : Container) : c.containerName = nameHeader ++ c.nameFields := by
  simp only [containerName, nameFields, List.append_assoc, List.cons_append]

def journalRecord (c : Container) (fields : Record) : Record :=
  fun key => if key = containerNameKey then c.containerName else fields key

/-- The tag with the namespace and the identifier of the pod. -/
def markTag (c : Container) : Text := markStart ++ (c.ns ++ '_' :: (c.uid ++ ['_']))

def journalTag (c : Container) : Text :=
  if c.name = "kibana".toList then kibanaRule.tag
  else if eventRouterPod <+: c.pod ∧ c.pod ≠ eventRouterPod then eventRouterRule.tag
  else if c.ns = "default".toList then defaultRule.tag
  else if "kube-".toList <+: c.ns then c.markTag
  else if "openshift-".toList <+: c.ns then c.markTag
  else if c.ns = "openshift".toList then openshiftRule.tag
  else if "fluentd".toList <:+: c.nameFields then fluentdRule.tag
  else kubernetesRule.tag

theorem not_mem_nameFields (c : Container) {x : Char} (hx : isPodChar x = false) :
    x ∉ c.name ∧ x ∉ c.hash ∧ x ∉ c.pod ∧ x ∉ c.ns ∧ x ∉ c.uid ∧ x ∉ c.attempt := by
  have hlabel : isLabelChar x = false := by
    rw [isPodChar, Bool.or_eq_false_iff] at hx
    exact hx.1
  exact ⟨not_mem_label c.name_valid hlabel, not_mem_label c.hash_valid hlabel,
    not_mem_podName c.pod_valid hx, not_mem_label c.ns_valid hlabel,
    not_mem_label c.uid_valid hlabel, not_mem_label c.attempt_valid hlabel⟩

theorem nameFields_line (c : Container) : '\n' ∉ c.nameFields := by
  obtain ⟨hname, hhash, hpod, hns, huid, hattempt⟩ := c.not_mem_nameFields (x := '\n') (by decide)
  have hfirst := Text.not_mem_split (x := '.') (by decide) hname hhash
  have hback := Text.not_mem_split (x := '_') (by decide) huid hattempt
  exact Text.not_mem_split (by decide) hfirst (Text.not_mem_split (by decide) hpod
    (Text.not_mem_split (by decide) hns hback))

end Container

def behindHeader (c : Container) : State := ⟨⟨nameHeader.reverse, c.nameFields⟩, fun _ => none⟩

theorem ignoreCase_ruby : Dialect.ruby.flags.ignoreCase = false := rfl

theorem retag_container {r : Rule} {a : Node} {groups : Nat}
    (hr : compile .ruby r.pattern = some ⟨anchored a, groups, [], Dialect.ruby.flags⟩)
    (hkey : r.key = containerNameKey) (hinvert : r.invert = false) (tag : Text) (c : Container)
    (fields : Record) :
    r.retag tag (c.journalRecord fields) =
      (a.run Dialect.ruby.flags (behindHeader c)).head?.map fun t =>
        expand tag (fun i => ((Match.mk (.start c.containerName) t).group i).getD []) r.tag := by
  have hfield : c.journalRecord fields r.key = c.containerName := by
    rw [hkey, Container.journalRecord, if_pos rfl]
  have hline : '\n' ∉ c.containerName := by
    rw [c.containerName_eq, List.mem_append, not_or]
    exact ⟨by decide, c.nameFields_line⟩
  have hne : c.containerName ≠ [] := by
    rw [c.containerName_eq]
    exact List.cons_ne_nil 'k' _
  rw [← hfield] at hne hline
  have hretag := Rule.retag_anchored hr hinvert hne hline tag
  have hrun : (litsThen nameHeader a).run Dialect.ruby.flags (.start c.containerName) =
      a.run Dialect.ruby.flags (behindHeader c) := by
    rw [State.start, Cursor.start, c.containerName_eq, litsThen_run_append ignoreCase_ruby]
    rfl
  rw [hretag, hfield, hrun]

theorem retag_fixed {r : Rule} {a : Node} {groups : Nat}
    (hr : compile .ruby r.pattern = some ⟨anchored a, groups, [], Dialect.ruby.flags⟩)
    (hkey : r.key = containerNameKey) (hinvert : r.invert = false)
    (hexpand : ∀ tag group, expand tag group r.tag = r.tag) {p : Prop} [Decidable p]
    {c : Container} (hp : a.run Dialect.ruby.flags (behindHeader c) ≠ [] ↔ p) (tag : Text)
    (fields : Record) :
    r.retag tag (c.journalRecord fields) = if p then some r.tag else none := by
  rw [retag_container hr hkey hinvert]
  simp only [hexpand]
  split
  · rename_i h
    cases hrun : a.run Dialect.ruby.flags (behindHeader c) with
    | nil => exact absurd hrun (hp.mpr h)
    | cons t ts => rfl
  · rename_i h
    cases hrun : a.run Dialect.ruby.flags (behindHeader c) with
    | nil => rfl
    | cons t ts =>
      have hne : a.run Dialect.ruby.flags (behindHeader c) ≠ [] := by
        rw [hrun]
        exact List.cons_ne_nil t ts
      exact absurd (hp.mp hne) h

theorem Container.first_field (c : Container) :
    '_' ∉ c.name ++ '.' :: c.hash ∧ c.name ++ '.' :: c.hash ≠ [] := by
  obtain ⟨hname, hhash, -⟩ := c.not_mem_nameFields (x := '_') (by decide)
  refine ⟨Text.not_mem_split (by decide) hname hhash, ?_⟩
  rw [ne_eq, List.append_eq_nil_iff, not_and_or]
  exact .inr (List.cons_ne_nil _ _)

theorem namespaceNode_run (a : Node) (c : Container) :
    ∃ past, (namespaceNode a).run Dialect.ruby.flags (behindHeader c) =
      a.run Dialect.ruby.flags
        ⟨⟨past, c.ns ++ '_' :: (c.uid ++ '_' :: c.attempt)⟩, fun _ => none⟩ := by
  obtain ⟨hfirst, hne⟩ := c.first_field
  obtain ⟨-, -, hpod, -⟩ := c.not_mem_nameFields (x := '_') (by decide)
  have hpodNe : c.pod ≠ [] := by
    intro hnil
    have := c.pod_valid
    rw [hnil] at this
    contradiction
  rw [namespaceNode, behindHeader, Container.nameFields, field_run ignoreCase_ruby hfirst hne,
    field_run ignoreCase_ruby hpod hpodNe]
  exact ⟨_, rfl⟩

theorem kibana_retag (c : Container) (tag : Text) (fields : Record) :
    kibanaRule.retag tag (c.journalRecord fields) =
      if c.name = "kibana".toList then some kibanaRule.tag else none := by
  refine retag_fixed (a := litsThen ("kibana".toList ++ ['.']) .empty) rfl rfl rfl
    (fixedTags_expand (by simp [fixedTags])) ?_ tag fields
  have hname : '.' ∉ c.name := not_mem_label c.name_valid (by decide)
  rw [behindHeader, litsThen_run_iff ignoreCase_ruby, Container.nameFields, List.append_assoc]
  exact Text.begins_whole (by decide) hname

theorem eventRouter_retag (c : Container) (tag : Text) (fields : Record) :
    eventRouterRule.retag tag (c.journalRecord fields) =
      if eventRouterPod <+: c.pod ∧ c.pod ≠ eventRouterPod then some eventRouterRule.tag
      else none := by
  refine retag_fixed (a := field '_' (litsThen eventRouterPod (field '_' .empty)))
    rfl rfl rfl (fixedTags_expand (by simp [fixedTags])) ?_ tag fields
  obtain ⟨hfirst, hne⟩ := c.first_field
  obtain ⟨-, -, hpod, -⟩ := c.not_mem_nameFields (x := '_') (by decide)
  rw [behindHeader, Container.nameFields, field_run ignoreCase_ruby hfirst hne]
  by_cases hbegins : eventRouterPod <+: c.pod
  · obtain ⟨r, hr⟩ := hbegins
    rw [← hr] at hpod ⊢
    rw [List.mem_append, not_or] at hpod
    rw [List.append_assoc, litsThen_run_append ignoreCase_ruby]
    cases r with
    | nil => simp [field_run_nil ignoreCase_ruby]
    | cons x r =>
      rw [field_run ignoreCase_ruby hpod.2 (List.cons_ne_nil x r)]
      simp [Node.run]
  · have hfails : ¬ eventRouterPod <+: c.pod ++ '_' :: (c.ns ++ '_' :: (c.uid ++ '_' :: c.attempt)) := by
      rw [Text.begins_field (by decide)]
      exact hbegins
    simp [litsThen_run_fails ignoreCase_ruby hfails, hbegins]

theorem namespace_retag {r : Rule} {w : Text}
    (hr : compile .ruby r.pattern =
      some ⟨anchored (namespaceNode (litsThen (w ++ ['_']) .empty)), 0, [], Dialect.ruby.flags⟩)
    (hkey : r.key = containerNameKey) (hinvert : r.invert = false)
    (hexpand : ∀ tag group, expand tag group r.tag = r.tag) (hw : '_' ∉ w) (c : Container)
    (tag : Text) (fields : Record) :
    r.retag tag (c.journalRecord fields) = if c.ns = w then some r.tag else none := by
  refine retag_fixed hr hkey hinvert hexpand ?_ tag fields
  have hns : '_' ∉ c.ns := not_mem_label c.ns_valid (by decide)
  obtain ⟨past, hrun⟩ := namespaceNode_run (litsThen (w ++ ['_']) .empty) c
  rw [hrun, litsThen_run_iff ignoreCase_ruby]
  exact Text.begins_whole hw hns

/-- A rule for the namespaces with a prefix: the greedy group takes the
identifier behind the namespace, too. -/
theorem namespaces_retag {r : Rule} {w : Text}
    (hr : compile .ruby r.pattern =
      some ⟨anchored (namespaceNode (litsThen w (lastField 1 '_'))), 1, [], Dialect.ruby.flags⟩)
    (hkey : r.key = containerNameKey) (hinvert : r.invert = false)
    (hexpand : ∀ tag group, expand tag group r.tag = markStart ++ (w ++ (group 1 ++ ['_'])))
    (hw : '_' ∉ w) (c : Container) (tag : Text) (fields : Record) :
    r.retag tag (c.journalRecord fields) = if w <+: c.ns then some c.markTag else none := by
  obtain ⟨past, hrun⟩ := namespaceNode_run (litsThen w (lastField 1 '_')) c
  rw [retag_container hr hkey hinvert, hrun]
  by_cases hbegins : w <+: c.ns
  · rw [if_pos hbegins]
    obtain ⟨rest, hrest⟩ := hbegins
    obtain ⟨-, -, -, -, huid, hattempt⟩ := c.not_mem_nameFields (x := '_') (by decide)
    obtain ⟨-, -, -, hnsLine, huidLine, -⟩ := c.not_mem_nameFields (x := '\n') (by decide)
    rw [← hrest, List.mem_append, not_or] at hnsLine
    have hline : '\n' ∉ rest ++ '_' :: c.uid := Text.not_mem_split (by decide) hnsLine.2 huidLine
    obtain ⟨t, hhead, hcapture⟩ := lastField_run (i := 1) ignoreCase_ruby
      (List.append_ne_nil_of_right_ne_nil rest (List.cons_ne_nil '_' c.uid)) hline hattempt
      (w.reverse ++ past) (fun _ => none)
    rw [List.append_assoc] at hhead
    rw [← hrest, List.append_assoc, litsThen_run_append ignoreCase_ruby]
    have hgroup : (Match.mk (.start c.containerName) t).group 1 = some (rest ++ '_' :: c.uid) :=
      hcapture
    simp only [List.cons_append] at hhead
    rw [hhead, Option.map_some, hexpand, hgroup, Option.getD_some, Container.markTag, ← hrest]
    simp only [List.append_assoc, List.cons_append]
  · rw [if_neg hbegins]
    have hfails : ¬ w <+: c.ns ++ '_' :: (c.uid ++ '_' :: c.attempt) := by
      rw [Text.begins_field hw]
      exact hbegins
    rw [litsThen_run_fails ignoreCase_ruby hfails]
    rfl

theorem fluentd_retag (c : Container) (tag : Text) (fields : Record) :
    fluentdRule.retag tag (c.journalRecord fields) =
      if "fluentd".toList <:+: c.nameFields then some fluentdRule.tag else none := by
  refine retag_fixed (a := somewhere "fluentd".toList) rfl rfl rfl
    (fixedTags_expand (by simp [fixedTags])) ?_ tag fields
  rw [behindHeader]
  exact somewhere_run ignoreCase_ruby _ c.nameFields_line _

theorem kubernetes_retag (c : Container) (tag : Text) (fields : Record) :
    kubernetesRule.retag tag (c.journalRecord fields) = some kubernetesRule.tag := by
  have hrun := retag_fixed (a := .empty) (p := True) (r := kubernetesRule) rfl rfl rfl
    (fixedTags_expand (by simp [fixedTags])) (c := c) (by simp [Node.run]) tag fields
  rw [hrun, if_pos trivial]


theorem or_ite (p : Prop) [Decidable p] (a b : Text) :
    (if p then some a else none).or (some b) = some (if p then a else b) := by
  split <;> rfl

/-- The rules in their order give the journal's records of a container its tag. -/
theorem rewriteTag_journal (c : Container) (tag : Text) (fields : Record) :
    rewriteTag retagJournal tag (c.journalRecord fields) = some c.journalTag := by
  have hdefault := namespace_retag (r := defaultRule) (w := "default".toList) rfl rfl rfl
    (fixedTags_expand (by simp [fixedTags])) (by decide) c tag fields
  have hkube := namespaces_retag kube_compile rfl rfl kube_expand (by decide) c tag fields
  have hdash := namespaces_retag openshiftDash_compile rfl rfl openshiftDash_expand (by decide) c
    tag fields
  have hopenshift := namespace_retag (r := openshiftRule) (w := "openshift".toList) rfl rfl rfl
    (fixedTags_expand (by simp [fixedTags])) (by decide) c tag fields
  rw [retagJournal, rewriteTag_cons, rewriteTag_cons, rewriteTag_cons, rewriteTag_cons,
    rewriteTag_cons, rewriteTag_cons, rewriteTag_cons, rewriteTag_cons, kibana_retag,
    eventRouter_retag, hdefault, hkube, hdash, hopenshift, fluentd_retag, kubernetes_retag,
    Option.some_or, or_ite, or_ite, or_ite, or_ite, or_ite, or_ite, or_ite]
  rfl

theorem journalTag_cases (c : Container) :
    c.journalTag ∈ fixedTags ∨ c.journalTag = c.markTag := by
  unfold Container.journalTag fixedTags
  split_ifs <;> simp

end AggregatedLogging.Fluentd
