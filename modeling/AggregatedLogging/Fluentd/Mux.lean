import AggregatedLogging.Fluentd.Journal
import AggregatedLogging.Regex.Consuming

/-! The tags with which records reach the end of `@INGRESS`: those of the inputs
of the node, and those that `input-post-forward-mux.conf` gives to the records
of other collectors. -/
namespace AggregatedLogging.Fluentd

open Glob Regex

/-- The rules for records of other OpenShift collectors: records with a time
are processed already. -/
def processedRules : List Rule :=
  [containerRule "^k8s_kube-eventrouter".toList "${tag}.raw".toList,
    ⟨"@timestamp".toList, ".+".toList, "${tag}.mux".toList, false⟩,
    ⟨"@timestamp".toList, ".+".toList, "${tag}.raw".toList, true⟩]

def processedTags : List Text :=
  ["system.var.log.messages**".toList, "kubernetes.**".toList, "journal.container**".toList,
    "journal.system**".toList, "audit.log**".toList]

def muxFile : Text := "kubernetes.var.log.containers.mux-mux.mux-mux_".toList

def muxSuffix : Text :=
  "_mux-0123456789012345678901234567890123456789012345678901234567890123.log.mux".toList

/-- The tag stands for a log file, so that the metadata of the namespace is
looked up. -/
def namespaceRule : Rule :=
  ⟨"mux_namespace_name".toList, "(.+)".toList, muxFile ++ '$' :: '1' :: muxSuffix, false⟩

/-- The rules for external records; `undefined` is `MUX_UNDEFINED_NAMESPACE`. -/
def externalRules (undefined : Option Text) : List Rule :=
  [⟨"mux_need_k8s_meta".toList, "^false$".toList, "mux".toList, false⟩,
    ⟨"mux_namespace_name".toList, undefined.getD "[.]orphaned".toList, "mux".toList, false⟩,
    namespaceRule]

def muxSections (undefined : Option Text) : List (List Text × Retag) :=
  [(["journal".toList], .relabel), (["**.raw".toList], .relabel),
    (processedTags, .rewrite processedRules), (["**".toList], .rewrite (externalRules undefined))]

/-- The tag under which a record of another collector goes on to `@INGRESS`;
`record` is what the filters of `@MUX` made of it. -/
def mux (undefined : Option Text) (record : Record) (tag : Text) : Option Text :=
  (firstMatch (muxSections undefined) tag).bind fun
    | .relabel => some tag
    | .rewrite rules => rewriteTag rules tag record

/-- In `@INGRESS` only the tag `journal` is replaced. -/
def ingress (record : Record) (tag : Text) : Option Text :=
  if matchesAny ["journal".toList] tag then rewriteTag retagJournal tag record else some tag

inductive Input : Text → Prop where
  | file (c : Container) : Input c.fileTag
  | journal : Input "journal".toList
  | audit : Input "audit.log".toList
  | syslog : Input "system.var.log.messages".toList

inductive Reaches (undefined : Option Text) : Text → Prop where
  | input {tag t : Text} (record : Record) (htag : Input tag) (h : ingress record tag = some t) :
      Reaches undefined t
  | mux {tag s t : Text} (record later : Record) (hline : '\n' ∉ tag)
      (hmux : mux undefined record tag = some s) (h : ingress later s = some t) :
      Reaches undefined t

def ownTags : List Text := ["retry_es_ops".toList, outputOpsTag, "mux.ops".toList]

structure Inner (t : Text) : Prop where
  line : '\n' ∉ t
  notOwn : t ∉ ownTags

theorem Inner.of_head {t : Text} {c : Char} (hline : '\n' ∉ t) (hhead : t.head? = some c)
    (hc : c ∉ ['r', 'o', 'm']) : Inner t := by
  refine ⟨hline, fun hmem => hc ?_⟩
  have hown : ∀ s ∈ ownTags, ∀ d, s.head? = some d → d ∈ ['r', 'o', 'm'] := by
    intro s hs d hd
    simp only [ownTags, List.mem_cons, List.not_mem_nil, or_false] at hs
    rcases hs with rfl | rfl | rfl
    · cases hd
      decide
    · cases hd
      decide
    · cases hd
      decide
  exact hown t hmem c hhead

theorem Inner.of_last {t : Text} {c : Char} (hline : '\n' ∉ t) (hlast : t.getLast? = some c)
    (hc : c ∉ ['s', 'g']) : Inner t := by
  refine ⟨hline, fun hmem => hc ?_⟩
  have hown : ∀ s ∈ ownTags, s.getLast? = some 's' ∨ s.getLast? = some 'g' := by decide
  rcases hown t hmem with h | h
  · rw [hlast] at h
    cases h
    decide
  · rw [hlast] at h
    cases h
    decide

theorem rewriteTag_some {rules : List Rule} {tag t : Text} {record : Record}
    (h : rewriteTag rules tag record = some t) : ∃ r ∈ rules, r.retag tag record = some t :=
  List.exists_of_findSome?_eq_some h

theorem Rule.retag_some {r : Rule} {tag t : Text} {record : Record}
    (h : r.retag tag record = some t) :
    ∃ group, t = expand tag group r.tag ∧ ∀ (p : Pattern) (q : Char → Bool),
      compile .ruby r.pattern = some p → p.flags.literal → p.node.capturesOver q 1 →
        (group 1).all q = true := by
  unfold Rule.retag at h
  split at h
  · split at h
    · exact ⟨fun _ => [], (Option.some.inj h).symm, fun _ _ _ _ _ => rfl⟩
    · contradiction
  · split at h
    · contradiction
    · obtain ⟨m, hm, rfl⟩ := Option.map_eq_some_iff.mp h
      refine ⟨_, rfl, fun p q hp hfl hq => ?_⟩
      rw [Rule.search, hp, Option.bind_some] at hm
      exact Pattern.search_captured hfl hq hm (by decide)

theorem litsThen_capturesOver {p : Char → Bool} {i : Nat} {w : Text} {a : Node}
    (h : a.capturesOver p i) : (litsThen w a).capturesOver p i := by
  induction w with
  | nil => exact h
  | cons c w ih => exact ⟨trivial, ih⟩

def isLineChar (c : Char) : Bool := c ≠ '\n'

theorem dots_capturesOver (i : Nat) :
    (Node.capture i (.seq (.rep 1 none true (.atom .dot)) .empty)).capturesOver isLineChar i := by
  have hdot : (Node.atom .dot).over isLineChar := by
    intro c hc
    rw [isLineChar, decide_eq_true hc]
  exact ⟨fun _ => ⟨hdot, trivial⟩, trivial, trivial⟩

theorem line_of_all {s : Text} (h : s.all isLineChar = true) : '\n' ∉ s := by
  intro hmem
  have := List.all_eq_true.mp h '\n' hmem
  contradiction

theorem retagJournal_inner {tag t : Text} {record : Record}
    (h : rewriteTag retagJournal tag record = some t) : Inner t := by
  obtain ⟨r, hr, ht⟩ := rewriteTag_some h
  obtain ⟨group, rfl, hgroup⟩ := Rule.retag_some ht
  have hfixed {s : Text} (hs : s ∈ fixedTags) : Inner (expand tag group s) := by
    obtain ⟨hplain, hline, hhead⟩ := fixedTags_plain s hs
    rw [expand_plain hplain]
    exact .of_head hline hhead (by decide)
  have hdash {w : Text} (hw : '\n' ∉ w) (hcaptured : (group 1).all isLineChar = true) :
      Inner (markStart ++ (w ++ (group 1 ++ ['_']))) := by
    refine .of_head (c := 'k') ?_ rfl (by decide)
    simp only [List.mem_append, not_or]
    exact ⟨by decide, hw, line_of_all hcaptured, by decide⟩
  have hover (w : Text) : (anchored (namespaceNode (litsThen w (lastField 1 '_')))).capturesOver
      isLineChar 1 := by
    have hlast : (lastField 1 '_').capturesOver isLineChar 1 :=
      ⟨dots_capturesOver 1, trivial, trivial⟩
    have hns : (namespaceNode (litsThen w (lastField 1 '_'))).capturesOver isLineChar 1 :=
      ⟨trivial, trivial, trivial, trivial, litsThen_capturesOver hlast⟩
    exact ⟨trivial, litsThen_capturesOver hns⟩
  simp only [retagJournal, List.mem_cons, List.not_mem_nil, or_false] at hr
  rcases hr with rfl | rfl | rfl | rfl | rfl | rfl | rfl | rfl | rfl
  · exact hfixed (by simp [fixedTags])
  · exact hfixed (by simp [fixedTags])
  · exact hfixed (by simp [fixedTags])
  · rw [kube_expand]
    exact hdash (by decide) (hgroup _ _ kube_compile ⟨rfl, rfl⟩ (hover _))
  · rw [openshiftDash_expand]
    exact hdash (by decide) (hgroup _ _ openshiftDash_compile ⟨rfl, rfl⟩ (hover _))
  · exact hfixed (by simp [fixedTags])
  · exact hfixed (by simp [fixedTags])
  · exact hfixed (by simp [fixedTags])
  · rw [expand_plain (by decide)]
    exact .of_head (c := 'j') (by decide) rfl (by decide)

theorem ingress_inner {tag t : Text} {record : Record} (htag : Inner tag)
    (h : ingress record tag = some t) : Inner t := by
  unfold ingress at h
  split at h
  · exact retagJournal_inner h
  · cases h
    exact htag

theorem Input.inner {tag : Text} (h : Input tag) : Inner tag := by
  cases h with
  | file c => exact .of_head (c := 'k') c.fileTag_line rfl (by decide)
  | journal => exact .of_head (c := 'j') (by decide) rfl (by decide)
  | audit => exact .of_head (c := 'a') (by decide) rfl (by decide)
  | syslog => exact .of_head (c := 's') (by decide) rfl (by decide)

theorem processed_inner {tag t : Text} {record : Record} (hline : '\n' ∉ tag)
    (h : rewriteTag processedRules tag record = some t) : Inner t := by
  obtain ⟨r, hr, ht⟩ := rewriteTag_some h
  obtain ⟨group, rfl, -⟩ := Rule.retag_some ht
  have hnew {s : Text} {c : Char} (hs : '\n' ∉ s) (hlast : (tag ++ s).getLast? = some c)
      (hc : c ∉ ['s', 'g']) : Inner (tag ++ s) := by
    refine .of_last ?_ hlast hc
    rw [List.mem_append, not_or]
    exact ⟨hline, hs⟩
  have hraw : Inner (tag ++ ".raw".toList) := hnew (c := 'w') (by decide) (by simp) (by decide)
  have hmux : Inner (tag ++ ".mux".toList) := hnew (c := 'x') (by decide) (by simp) (by decide)
  simp only [processedRules, List.mem_cons, List.not_mem_nil, or_false] at hr
  rcases hr with rfl | rfl | rfl
  · exact hraw
  · exact hmux
  · exact hraw

theorem namespaceRule_tag (tag : Text) (group : Nat → Text) :
    expand tag group namespaceRule.tag = muxFile ++ (group 1 ++ muxSuffix) := by
  have hrule : namespaceRule.tag = muxFile ++ ('$' :: '1' :: muxSuffix) := rfl
  rw [hrule, expand_group (by decide) (by decide)]

def namespaceRegex : Regex.Pattern :=
  ⟨.seq (.capture 1 (.seq (.rep 1 none true (.atom .dot)) .empty)) .empty, 1, [], Dialect.ruby.flags⟩

theorem namespaceRule_retag_some {tag t : Text} {record : Record}
    (h : namespaceRule.retag tag record = some t) :
    ∃ g, t = muxFile ++ (g ++ muxSuffix) ∧ '\n' ∉ g := by
  obtain ⟨group, rfl, hgroup⟩ := Rule.retag_some h
  have hcaptured : (group 1).all isLineChar = true :=
    hgroup namespaceRegex isLineChar rfl ⟨rfl, rfl⟩ ⟨dots_capturesOver 1, trivial⟩
  exact ⟨group 1, namespaceRule_tag tag group, line_of_all hcaptured⟩

theorem external_inner {undefined : Option Text} {tag t : Text} {record : Record}
    (h : rewriteTag (externalRules undefined) tag record = some t) : Inner t := by
  obtain ⟨r, hr, ht⟩ := rewriteTag_some h
  have hmux : Inner "mux".toList := .of_last (c := 'x') (by decide) rfl (by decide)
  have hfixed {key pattern : Text} {invert : Bool}
      (ht : (Rule.mk key pattern "mux".toList invert).retag tag record = some t) : Inner t := by
    obtain ⟨group, rfl, -⟩ := Rule.retag_some ht
    exact hmux
  simp only [externalRules, List.mem_cons, List.not_mem_nil, or_false] at hr
  rcases hr with rfl | rfl | rfl
  · exact hfixed ht
  · exact hfixed ht
  · obtain ⟨g, rfl, hline⟩ := namespaceRule_retag_some ht
    refine .of_head (c := 'k') ?_ rfl (by decide)
    simp only [List.mem_append, not_or]
    exact ⟨by decide, hline, by decide⟩

theorem mux_inner {undefined : Option Text} {tag t : Text} {record : Record} (hline : '\n' ∉ tag)
    (h : mux undefined record tag = some t) : Inner t := by
  unfold mux muxSections at h
  rw [firstMatch_cons, firstMatch_cons, firstMatch_cons, firstMatch_cons, matchesAny_stars hline]
    at h
  split at h
  · rename_i hjournal
    cases h
    rw [matchesAny, List.any_cons, List.any_nil, Bool.or_false,
      matchesTag_word (by decide) hline] at hjournal
    rw [hjournal]
    exact Input.journal.inner
  · split at h
    · rename_i hraw
      cases h
      rw [matchesAny, List.any_cons, List.any_nil, Bool.or_false,
        matchesTag_last (w := "raw".toList) (by decide) hline] at hraw
      refine .of_last (c := 'w') hline ?_ (by decide)
      rcases hraw with ⟨u, rfl⟩ | rfl
      · simp
      · rfl
    · split at h
      · exact processed_inner hline h
      · exact external_inner h

theorem Reaches.inner {undefined : Option Text} {t : Text} (h : Reaches undefined t) : Inner t := by
  cases h with
  | input record htag h => exact ingress_inner htag.inner h
  | mux record later hline hmux h => exact ingress_inner (mux_inner hline hmux) h

end AggregatedLogging.Fluentd
