import AggregatedLogging.Fluentd.TagList
import AggregatedLogging.Fluentd.RewriteTag

/-! The end of the pipeline with two clusters: the new tags of
`filter-post-z-retag-two.conf` and the outputs under `@OUTPUT`. -/
namespace AggregatedLogging.Fluentd

open Glob Regex

inductive Retag where
  | relabel
  | rewrite (rules : List Rule)

def messageKey : Text := "message".toList

def anyText : Text := ".+".toList

def outputOpsTag : Text := "output_ops_tag".toList

def outputTag : Text := "output_tag".toList

/-- Records with and without a message get the same tag. -/
def messageRules (new : Text) : List Rule :=
  [⟨messageKey, anyText, new, false⟩, ⟨messageKey, anyText, new, true⟩]

def keptTags : List Text := ["mux.**".toList, "**.fluentd".toList]

def systemTags : List Text := ["journal.**".toList, "system.var.log**".toList, "audit.log**".toList]

/-- `filter-post-z-retag-two.conf` -/
def retagTwo (value : Option Text) : List (List Text × Retag) :=
  [(keptTags, .relabel),
    (ocpFluentdTags value ++ systemTags, .rewrite (messageRules outputOpsTag)),
    (["**".toList], .rewrite (messageRules outputTag))]

inductive Cluster where
  | operations
  | applications
  deriving DecidableEq, Repr

def outputTags : List Text :=
  [outputOpsTag, "journal.**".toList, "system.var.log**".toList, "mux.ops".toList,
    "audit.log**".toList]

/-- `output-operations.conf` and `output-applications.conf`; what is sent again
has tags of its own. -/
def outputs (value : Option Text) : List (List Text × Cluster) :=
  [(["retry_es_ops".toList], .operations), (outputTags ++ ocpFluentdTags value, .operations),
    (["retry_es".toList], .applications), (["**".toList], .applications)]

/-- The cluster that gets a record with this tag from the end of `@INGRESS`. -/
def cluster (value : Option Text) (record : Record) (tag : Text) : Option Cluster :=
  (firstMatch (retagTwo value) tag).bind fun
    | .relabel => firstMatch (outputs value) tag
    | .rewrite rules => (rewriteTag rules tag record).bind (firstMatch (outputs value))

def retagTwoList : Text := "%OCP_FLUENTD_TAGS% journal.** system.var.log** audit.log**".toList

def outputsList : Text :=
  "output_ops_tag journal.** system.var.log** mux.ops audit.log** %OCP_FLUENTD_TAGS%".toList

/-- Behind `sed` the lists are the ones above. -/
structure Listed (files : List Text) (value : Option Text) : Prop where
  retag : words (withTags (fluentdTags files value) retagTwoList) =
    ocpFluentdTags value ++ systemTags
  outputs : words (withTags (fluentdTags files value) outputsList) =
    outputTags ++ ocpFluentdTags value

theorem Literal.listed {files : List Text} {value : Option Text} (h : Literal files value) :
    Listed files value where
  retag := by
    have hlist := words_withTags_first (fluentdTags files value)
      "journal.** system.var.log** audit.log**".toList
    rw [words_fluentdTags h] at hlist
    exact hlist
  outputs := by
    have hlist := words_withTags_last (fluentdTags files value)
      (u := "output_ops_tag journal.** system.var.log** mux.ops audit.log**".toList) (by decide)
    rw [words_fluentdTags h] at hlist
    exact hlist

theorem matchesAny_append (ps qs : List Text) (tag : Text) :
    matchesAny (ps ++ qs) tag = (matchesAny ps tag || matchesAny qs tag) := by
  rw [matchesAny, List.any_append]
  rfl

theorem matchesAny_stars {tag : Text} (hline : '\n' ∉ tag) :
    matchesAny ["**".toList] tag = true := by
  have hparse : parse "**".toList = [[.many '\n']] := by decide
  rw [matchesAny, List.any_cons, matchesTag, hparse, List.any_cons,
    (accepts_many (b := false) rfl).mpr ⟨tag, [], (List.append_nil tag).symm, hline, rfl⟩]
  rfl

theorem tagEnd_line {r : Text} (hr : tagEnd r = true) (hline : '\n' ∉ r) : r = [] := by
  rw [tagEnd, Bool.or_eq_true, decide_eq_true_eq, decide_eq_true_eq] at hr
  rcases hr with rfl | rfl
  · rfl
  · simp at hline

theorem matchesTag_word {w : Text} (hparse : parse w = [lits w]) {tag : Text} (hline : '\n' ∉ tag) :
    matchesTag w tag = true ↔ tag = w := by
  rw [matchesTag, hparse, List.any_cons, List.any_nil, Bool.or_false, accepts_lits]
  constructor
  · rintro ⟨r, rfl, hr⟩
    rw [List.mem_append, not_or] at hline
    rw [tagEnd_line hr hline.2, List.append_nil]
  · rintro rfl
    exact ⟨[], (List.append_nil tag).symm, rfl⟩

/-- Two stars and a dot are optional in front of the last part of a tag. -/
theorem matchesTag_last {pattern w : Text}
    (hparse : parse pattern = [.many '\n' :: lits ('.' :: w), .start :: lits w]) {tag : Text}
    (hline : '\n' ∉ tag) : matchesTag pattern tag = true ↔ '.' :: w <:+ tag ∨ tag = w := by
  rw [matchesTag, hparse, List.any_cons, List.any_cons, List.any_nil, Bool.or_false,
    Bool.or_eq_true, accepts_many (b := false) (lits_free _)]
  simp only [accepts, Bool.not_false, Bool.true_and, accepts_lits]
  constructor
  · rintro (⟨u, r, rfl, -, v, rfl, hv⟩ | ⟨r, rfl, hr⟩)
    · simp only [List.mem_append, not_or] at hline
      rw [tagEnd_line hv hline.2.2, List.append_nil]
      exact .inl (List.suffix_append u _)
    · simp only [List.mem_append, not_or] at hline
      rw [tagEnd_line hr hline.2, List.append_nil]
      exact .inr rfl
  · rintro (⟨u, rfl⟩ | rfl)
    · rw [List.mem_append, not_or] at hline
      exact .inl ⟨u, _, rfl, hline.1, [], (List.append_nil _).symm, rfl⟩
    · exact .inr ⟨[], (List.append_nil tag).symm, rfl⟩

theorem matchesTag_fluentd {tag : Text} (hline : '\n' ∉ tag) :
    matchesTag "**.fluentd".toList tag = true ↔
      ".fluentd".toList <:+ tag ∨ tag = "fluentd".toList :=
  matchesTag_last (by decide) hline

theorem rewriteTag_message {new : Text} (hnew : ∀ tag group, expand tag group new = new)
    (tag : Text) (record : Record) : rewriteTag (messageRules new) tag record = some new :=
  rewriteTag_both hnew rfl tag record

def outputCluster (value : Option Text) (tag : Text) : Cluster :=
  if matchesAny ["retry_es_ops".toList] tag ∨ matchesAny outputTags tag ∨
      matchesAny (ocpFluentdTags value) tag then .operations
  else .applications

theorem firstMatch_outputs (value : Option Text) {tag : Text} (hline : '\n' ∉ tag) :
    firstMatch (outputs value) tag = some (outputCluster value tag) := by
  unfold outputs outputCluster
  rw [firstMatch_cons, firstMatch_cons, firstMatch_cons, firstMatch_cons, matchesAny_stars hline,
    matchesAny_append]
  cases matchesAny ["retry_es_ops".toList] tag with
  | true => rfl
  | false =>
    cases matchesAny outputTags tag with
    | true => rfl
    | false =>
      cases matchesAny (ocpFluentdTags value) tag with
      | true => rfl
      | false => cases matchesAny ["retry_es".toList] tag <;> rfl

theorem outputCluster_outputOpsTag (value : Option Text) :
    outputCluster value outputOpsTag = .operations := by
  have hlisted : matchesAny outputTags outputOpsTag = true := by decide
  rw [outputCluster, if_pos (.inr (.inl hlisted))]

theorem outputCluster_outputTag (value : Option Text) :
    outputCluster value outputTag =
      if matchesAny (ocpFluentdTags value) outputTag then .operations else .applications := by
  have hretry : matchesAny ["retry_es_ops".toList] outputTag = false := by decide
  have hlisted : matchesAny outputTags outputTag = false := by decide
  rw [outputCluster, hretry, hlisted]
  simp only [Bool.false_eq_true, false_or]

/-- What the two stages make of a tag: a kept tag goes to the outputs as it is,
any other one stands for operations or for applications. -/
theorem cluster_eq (value : Option Text) (record : Record) {tag : Text} (hline : '\n' ∉ tag) :
    cluster value record tag = some
      (if matchesAny keptTags tag then outputCluster value tag
      else if matchesAny (ocpFluentdTags value) tag ∨ matchesAny systemTags tag then .operations
      else outputCluster value outputTag) := by
  have hops : rewriteTag (messageRules outputOpsTag) tag record = some outputOpsTag :=
    rewriteTag_message (fun _ _ => rfl) tag record
  have happs : rewriteTag (messageRules outputTag) tag record = some outputTag :=
    rewriteTag_message (fun _ _ => rfl) tag record
  unfold cluster retagTwo
  rw [firstMatch_cons, firstMatch_cons, firstMatch_cons, matchesAny_stars hline, matchesAny_append]
  cases matchesAny keptTags tag with
  | true => exact firstMatch_outputs value hline
  | false =>
    cases hlisted : matchesAny (ocpFluentdTags value) tag || matchesAny systemTags tag with
    | true =>
      rw [Bool.or_eq_true] at hlisted
      simp only [Bool.false_eq_true, ↓reduceIte, Option.bind_some, hops]
      rw [firstMatch_outputs value (by decide), outputCluster_outputOpsTag, if_pos hlisted]
    | false =>
      rw [Bool.or_eq_false_iff] at hlisted
      simp only [Bool.false_eq_true, ↓reduceIte, Option.bind_some, happs, hlisted.1, hlisted.2,
        or_self]
      exact firstMatch_outputs value (by decide)

theorem cluster_operations_iff (value : Option Text) (record : Record) {tag : Text}
    (hline : '\n' ∉ tag) :
    cluster value record tag = some .operations ↔
      if matchesAny keptTags tag then outputCluster value tag = .operations
      else matchesAny (ocpFluentdTags value) tag ∨ matchesAny systemTags tag ∨
        matchesAny (ocpFluentdTags value) outputTag := by
  rw [cluster_eq value record hline, Option.some.injEq, outputCluster_outputTag]
  split
  · rfl
  · split
    · rename_i hlisted
      simp only [true_iff]
      exact hlisted.imp_right Or.inl
    · rename_i hlisted
      rw [not_or] at hlisted
      split
      · simp_all
      · simp_all

end AggregatedLogging.Fluentd
