import AggregatedLogging.Fluentd.LogDriver

/-! Records that Elasticsearch rejects: the store gives them back to the outputs
under its `retry_tag`, as often as it takes. -/
namespace AggregatedLogging.Fluentd

open Glob

/-- The stores under `@OUTPUT`, those for records that are sent for the first
time and those for what comes back. -/
inductive Store where
  | first (c : Cluster)
  | again (c : Cluster)
  deriving DecidableEq, Repr

def Store.cluster : Store → Cluster
  | .first c | .again c => c

def retryOpsTag : Text := "retry_es_ops".toList

def retryEsTag : Text := "retry_es".toList

/-- `retry_tag`; `output-es-retry.conf` and `output-es-ops-retry.conf` set none. -/
def Store.retryTag : Store → Option Text
  | .first .operations => some retryOpsTag
  | .first .applications => some retryEsTag
  | .again _ => none

/-- `output-operations.conf` and `output-applications.conf` with their stores -/
def stores (value : Option Text) : List (List Text × Store) :=
  [([retryOpsTag], .again .operations), (outputTags ++ ocpFluentdTags value, .first .operations),
    ([retryEsTag], .again .applications), (["**".toList], .first .applications)]

def storeOf (value : Option Text) (tag : Text) : Option Store := firstMatch (stores value) tag

/-- The tag of a rejected record; without a `retry_tag` it keeps its own. -/
def resend (value : Option Text) (tag : Text) : Option Text :=
  (storeOf value tag).map fun s => s.retryTag.getD tag

def resent (value : Option Text) : Nat → Text → Option Text
  | 0, tag => some tag
  | n + 1, tag => (resend value tag).bind (resent value n)

def storeAfter (value : Option Text) (n : Nat) (tag : Text) : Option Store :=
  (resent value n tag).bind (storeOf value)

theorem stores_cluster (value : Option Text) :
    (stores value).map (fun s => (s.1, s.2.cluster)) = outputs value := rfl

theorem firstMatch_map (f : α → β) (sections : List (List Text × α)) (tag : Text) :
    firstMatch (sections.map fun s => (s.1, f s.2)) tag = (firstMatch sections tag).map f := by
  induction sections with
  | nil => rfl
  | cons s sections ih =>
    rw [List.map_cons, firstMatch_cons, ih]
    change _ = (firstMatch ((s.1, s.2) :: sections) tag).map f
    rw [firstMatch_cons]
    split <;> rfl

theorem store_cluster (value : Option Text) {tag : Text} (hline : '\n' ∉ tag) :
    (storeOf value tag).map Store.cluster = some (outputCluster value tag) := by
  rw [storeOf, ← firstMatch_map, stores_cluster, firstMatch_outputs value hline]

theorem store_retryOps (value : Option Text) :
    storeOf value retryOpsTag = some (.again .operations) := by
  have hmatch : matchesAny [retryOpsTag] retryOpsTag = true := by decide
  rw [storeOf, stores, firstMatch_cons, if_pos hmatch]

/-- An operations pattern that matches the tag would take the records of the
applications away. -/
theorem store_retryEs (value : Option Text) :
    storeOf value retryEsTag =
      if matchesAny (ocpFluentdTags value) retryEsTag then some (.first .operations)
      else some (.again .applications) := by
  have hops : matchesAny [retryOpsTag] retryEsTag = false := by decide
  have hlisted : matchesAny outputTags retryEsTag = false := by decide
  have hown : matchesAny [retryEsTag] retryEsTag = true := by decide
  rw [storeOf, stores, firstMatch_cons, firstMatch_cons, firstMatch_cons, hops, hown,
    matchesAny_append, hlisted]
  rfl

theorem resent_again {value : Option Text} {tag : Text} {c : Cluster}
    (h : storeOf value tag = some (.again c)) (n : Nat) : resent value n tag = some tag := by
  induction n with
  | zero => rfl
  | succ n ih =>
    rw [resent, resend, h]
    exact ih

theorem storeAfter_again {value : Option Text} {tag : Text} {c : Cluster}
    (h : storeOf value tag = some (.again c)) (n : Nat) :
    storeAfter value n tag = some (.again c) := by
  rw [storeAfter, resent_again h, Option.bind_some, h]

theorem storeAfter_succ {value : Option Text} {tag : Text} {s : Store}
    (h : storeOf value tag = some s) (n : Nat) :
    storeAfter value (n + 1) tag = storeAfter value n (s.retryTag.getD tag) := by
  rw [storeAfter, resent, resend, h]
  rfl

theorem storeAfter_rejected {value : Option Text}
    (hfree : matchesAny (ocpFluentdTags value) retryEsTag = false) {tag : Text} {s : Store}
    (h : storeOf value tag = some s) (n : Nat) :
    storeAfter value (n + 1) tag = some (.again s.cluster) := by
  rw [storeAfter_succ h]
  cases s with
  | first c =>
    cases c with
    | operations => exact storeAfter_again (store_retryOps value) n
    | applications =>
      have hretry := store_retryEs value
      rw [hfree] at hretry
      exact storeAfter_again hretry n
  | again c => exact storeAfter_again h n

/-- A record of the applications is resent to the operations cluster as soon as
an operations pattern matches its tag. -/
theorem storeAfter_taken {value : Option Text}
    (htaken : matchesAny (ocpFluentdTags value) retryEsTag = true) :
    storeOf value "mux".toList = some (.first .applications) ∧
      storeAfter value 1 "mux".toList = some (.first .operations) := by
  have hops : matchesAny [retryOpsTag] "mux".toList = false := by decide
  have hlisted : matchesAny outputTags "mux".toList = false := by decide
  have hcovers : matchesAny (ocpFluentdTags value) "mux".toList = false := not_covers (by decide)
  have hretry : matchesAny [retryEsTag] "mux".toList = false := by decide
  have hstore : storeOf value "mux".toList = some (.first .applications) := by
    rw [storeOf, stores, firstMatch_cons, firstMatch_cons, firstMatch_cons, firstMatch_cons, hops,
      hretry, matchesAny_append, hlisted, hcovers, matchesAny_stars (by decide)]
    rfl
  refine ⟨hstore, ?_⟩
  rw [storeAfter_succ hstore]
  change storeOf value retryEsTag = _
  rw [store_retryEs, htaken]
  rfl

theorem covers_retryEs {value : Option Text}
    (hwords : ∀ p ∈ operationsProjects value, p.all isWordChar = true) :
    matchesAny (ocpFluentdTags value) retryEsTag = false := by
  rw [← Bool.not_eq_true, covers_enclosed hwords (by decide)]
  exact not_enclosed_one (a := "retry".toList) (b := "es".toList) (by decide) (by decide)

/-- However often its cluster rejects a record, the outputs offer it to this
cluster again, exactly when no operations pattern matches the tag `retry_es`; for
names and patterns of namespaces none does. -/
theorem resent_sameCluster_iff (value : Option Text) :
    ((∀ tag, '\n' ∉ tag → ∀ n,
        (storeAfter value n tag).map Store.cluster = some (outputCluster value tag)) ↔
      matchesAny (ocpFluentdTags value) retryEsTag = false) ∧
      ((∀ p ∈ operationsProjects value, p.all isWordChar = true) →
        matchesAny (ocpFluentdTags value) retryEsTag = false) := by
  refine ⟨⟨?_, ?_⟩, covers_retryEs⟩
  · intro h
    by_contra htaken
    rw [Bool.not_eq_false] at htaken
    obtain ⟨hstore, hagain⟩ := storeAfter_taken htaken
    have hfirst := h "mux".toList (by decide) 0
    have hsecond := h "mux".toList (by decide) 1
    rw [← hfirst, hagain] at hsecond
    change some _ = (storeOf value "mux".toList).map Store.cluster at hsecond
    rw [hstore] at hsecond
    exact absurd hsecond (by decide)
  · intro hfree tag hline n
    cases n with
    | zero => exact store_cluster value hline
    | succ n =>
      have hcluster := store_cluster value hline
      cases hstore : storeOf value tag with
      | none =>
        rw [hstore] at hcluster
        contradiction
      | some s =>
        rw [hstore] at hcluster
        rw [storeAfter_rejected hfree hstore]
        exact hcluster

/-- The default projects take no record that is sent again. -/
theorem resent_sameCluster_default :
    ((∀ tag, '\n' ∉ tag → ∀ n,
        (storeAfter none n tag).map Store.cluster = some (outputCluster none tag)) ↔
      matchesAny (ocpFluentdTags none) retryEsTag = false) ∧
      matchesAny (ocpFluentdTags none) retryEsTag = false :=
  ⟨(resent_sameCluster_iff none).1, (resent_sameCluster_iff none).2 (by decide)⟩

end AggregatedLogging.Fluentd
