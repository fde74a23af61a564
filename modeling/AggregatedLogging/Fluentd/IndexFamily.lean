import AggregatedLogging.Fluentd.LogDriver
import AggregatedLogging.Fluentd.Mux

/-! The family of the index name that `filter-viaq-data-model.conf` gives a
record, and the cluster that the record goes to. -/
namespace AggregatedLogging.Fluentd

open Glob

inductive NameType where
  | operationsFull
  | projectFull
  deriving DecidableEq, Repr

def indexTags : List Text :=
  ["journal.system**".toList, "system.var.log**".toList, "audit.log**".toList]

/-- The sections `elasticsearch_index_name` -/
def elasticsearchIndexNames (value : Option Text) : List (List Text × NameType) :=
  [(indexTags ++ ocpFluentdTags value, .operationsFull), (["**".toList], .projectFull)]

def indexList : Text :=
  "journal.system** system.var.log** audit.log** %OCP_FLUENTD_TAGS%".toList

def indexName (value : Option Text) (tag : Text) : Option NameType :=
  firstMatch (elasticsearchIndexNames value) tag

/-- The name and the cluster of a record are both for operations or both for a
project. -/
def FamilyAgrees (value : Option Text) (record : Record) (tag : Text) : Prop :=
  (indexName value tag = some .operationsFull ∧
    cluster value record tag = some .operations) ∨
  (indexName value tag = some .projectFull ∧
    cluster value record tag = some .applications)

/-- A tag below `journal` is below `journal.system` or an operations tag, and
nothing that is retagged for applications is taken for operations later. -/
def Consistent (value : Option Text) (tag : Text) : Prop :=
  (matchesTag "journal.**".toList tag = true →
    matchesTag "journal.system**".toList tag = true ∨
      matchesAny (ocpFluentdTags value) tag = true) ∧
  (matchesAny (ocpFluentdTags value) outputTag = true →
    matchesAny keptTags tag = true ∨ matchesAny (ocpFluentdTags value) tag = true ∨
      matchesAny systemTags tag = true)

theorem indexName_eq (value : Option Text) {tag : Text} (hline : '\n' ∉ tag) :
    indexName value tag = some
      (if matchesAny indexTags tag ∨ matchesAny (ocpFluentdTags value) tag then .operationsFull
      else .projectFull) := by
  unfold indexName elasticsearchIndexNames
  rw [firstMatch_cons, firstMatch_cons, matchesAny_stars hline, matchesAny_append]
  cases matchesAny indexTags tag with
  | true => rfl
  | false => cases matchesAny (ocpFluentdTags value) tag <;> rfl

theorem matchesTag_journal {tag : Text} (hline : '\n' ∉ tag)
    (h : matchesTag "journal.system**".toList tag = true) :
    matchesTag "journal.**".toList tag = true := by
  have hsystem : parse "journal.system**".toList =
      [lits "journal.system".toList ++ [Item.many '\n']] := by decide
  have hjournal : parse "journal.**".toList =
      [lits "journal".toList ++ [Item.partEnd, .many '\n']] := by decide
  rw [matchesTag, hsystem, List.any_cons, List.any_nil, Bool.or_false, accepts_lits_append] at h
  obtain ⟨r, rfl, -⟩ := h
  rw [matchesTag, hjournal, List.any_cons, List.any_nil, Bool.or_false, accepts_lits_append]
  refine ⟨".system".toList ++ r, rfl, ?_⟩
  rw [List.mem_append, not_or] at hline
  have hrest : '\n' ∉ ".system".toList ++ r := by
    rw [List.mem_append, not_or]
    exact ⟨by decide, hline.2⟩
  change (true && accepts tagEnd [.many '\n'] true (".system".toList ++ r)) = true
  rw [Bool.true_and, accepts_many (b := false) rfl]
  exact ⟨_, [], (List.append_nil _).symm, hrest, rfl⟩

theorem matchesTag_journal_only {tag : Text} (h : matchesTag "journal.**".toList tag = true) :
    matchesTag "system.var.log**".toList tag = false ∧
      matchesTag "audit.log**".toList tag = false := by
  have hjournal : parse "journal.**".toList =
      [lits "journal".toList ++ [Item.partEnd, .many '\n']] := by decide
  rw [matchesTag, hjournal, List.any_cons, List.any_nil, Bool.or_false, accepts_lits_append] at h
  obtain ⟨r, rfl, -⟩ := h
  exact ⟨rfl, rfl⟩

theorem Inner.outputCluster_eq {tag : Text} (h : Inner tag) (value : Option Text) :
    outputCluster value tag =
      if matchesAny systemTags tag ∨ matchesAny (ocpFluentdTags value) tag then .operations
      else .applications := by
  have hown {w : Text} (hw : w ∈ ownTags) (hparse : parse w = [lits w]) : matchesTag w tag = false := by
    rw [← Bool.not_eq_true, matchesTag_word hparse h.line]
    rintro rfl
    exact h.notOwn hw
  have hretry : matchesAny ["retry_es_ops".toList] tag = false := by
    rw [matchesAny, List.any_cons, hown (w := "retry_es_ops".toList) (by decide) (by decide)]
    rfl
  have houtput : matchesAny outputTags tag = matchesAny systemTags tag := by
    simp only [matchesAny, outputTags, systemTags, List.any_cons, List.any_nil]
    rw [hown (w := outputOpsTag) (by decide) (by decide),
      hown (w := "mux.ops".toList) (by decide) (by decide), Bool.false_or, Bool.false_or]
  rw [outputCluster, hretry, houtput]
  simp only [Bool.false_eq_true, false_or]

theorem cluster_inner (value : Option Text) (record : Record) {tag : Text} (h : Inner tag) :
    cluster value record tag = some
      (if matchesAny systemTags tag ∨ matchesAny (ocpFluentdTags value) tag ∨
        (matchesAny keptTags tag = false ∧ matchesAny (ocpFluentdTags value) outputTag)
      then .operations else .applications) := by
  rw [cluster_eq value record h.line, h.outputCluster_eq, outputCluster_outputTag]
  cases matchesAny keptTags tag <;> cases matchesAny systemTags tag <;>
    cases matchesAny (ocpFluentdTags value) tag <;>
    cases matchesAny (ocpFluentdTags value) outputTag <;> rfl

/-- The lists of patterns differ in one entry: `journal.system**` for the name,
`journal.**` for the cluster. -/
theorem familyAgrees_iff (value : Option Text) (record : Record) {tag : Text} (h : Inner tag) :
    FamilyAgrees value record tag ↔ Consistent value tag := by
  have hbelow := matchesTag_journal h.line
  have honly := @matchesTag_journal_only tag
  unfold FamilyAgrees Consistent
  rw [indexName_eq value h.line, cluster_inner value record h]
  simp only [matchesAny, indexTags, systemTags, List.any_cons, List.any_nil, Bool.or_false] at *
  generalize matchesTag "journal.**".toList tag = j at *
  generalize matchesTag "journal.system**".toList tag = js at *
  generalize matchesTag "system.var.log**".toList tag = v at *
  generalize matchesTag "audit.log**".toList tag = a at *
  generalize (ocpFluentdTags value).any (fun p => matchesTag p tag) = o at *
  generalize (ocpFluentdTags value).any (fun p => matchesTag p outputTag) = q at *
  generalize keptTags.any (fun p => matchesTag p tag) = k at *
  revert hbelow honly
  revert j js v a o q k
  decide

/-- For a variable whose words stand for themselves the lists of the model are those of the
files; so the condition is exact for every tag that reaches the end of `@INGRESS`. -/
theorem indexFamily_agrees_iff {undefined : Option Text} {files : List Text}
    {value : Option Text} (hliteral : Literal files value) {tag : Text}
    (h : Reaches undefined tag) :
    (words (withTags (fluentdTags files value) indexList) = indexTags ++ ocpFluentdTags value ∧
        Listed files value) ∧
      ((∀ record, FamilyAgrees value record tag) ↔ Consistent value tag) ∧
      ((∀ p ∈ operationsProjects value, p.all isWordChar = true) →
        (Consistent value tag ↔
          (matchesTag "journal.**".toList tag = true →
            matchesTag "journal.system**".toList tag = true ∨
              matchesAny (ocpFluentdTags value) tag = true))) := by
  refine ⟨⟨?_, hliteral.listed⟩, ?_, ?_⟩
  · have hlist := words_withTags_last (fluentdTags files value)
      (u := "journal.system** system.var.log** audit.log**".toList) (by decide)
    rw [words_fluentdTags hliteral] at hlist
    exact hlist
  · constructor
    · intro hall
      exact (familyAgrees_iff value (fun _ => []) h.inner).mp (hall _)
    · intro hconsistent record
      exact (familyAgrees_iff value record h.inner).mpr hconsistent
  · intro hwords
    rw [Consistent, covers_outputTag hwords]
    simp

theorem reaches_journalContainer : Reaches none "journal.container.raw".toList :=
  .mux (fun _ => []) (fun _ => []) (by decide) (show mux none _ "journal.container".toList = _ from rfl)
    rfl

theorem indexFamily_agrees_journalContainer :
    (words (withTags (fluentdTags ["run.sh".toList] none) indexList) =
        indexTags ++ ocpFluentdTags none ∧ Listed ["run.sh".toList] none) ∧
      ((∀ record, FamilyAgrees none record "journal.container.raw".toList) ↔
        Consistent none "journal.container.raw".toList) ∧
      (Consistent none "journal.container.raw".toList ↔
        (matchesTag "journal.**".toList "journal.container.raw".toList = true →
          matchesTag "journal.system**".toList "journal.container.raw".toList = true ∨
            matchesAny (ocpFluentdTags none) "journal.container.raw".toList = true)) :=
  have hliteral : Literal ["run.sh".toList] none := .of_all (by decide) (by decide)
  have hagrees := indexFamily_agrees_iff hliteral reaches_journalContainer
  ⟨hagrees.1, hagrees.2.1, hagrees.2.2 (by decide)⟩

/-- It has the name of a project index and goes to the operations cluster. -/
theorem indexFamily_disagrees :
    ¬ ∀ (undefined value : Option Text) (tag : Text), Reaches undefined tag →
      ∀ record, FamilyAgrees value record tag := by
  intro h
  have hagrees := h none none _ reaches_journalContainer (fun _ => [])
  rw [familyAgrees_iff none _ reaches_journalContainer.inner] at hagrees
  have hbelow := hagrees.1 (by decide +kernel)
  revert hbelow
  decide +kernel

end AggregatedLogging.Fluentd
