import AggregatedLogging.Fluentd.IndexFamily

/-! Collectors that leave their records to a mux: the tags change on the way, the
clusters and the families of the index names do not. -/
namespace AggregatedLogging.Fluentd

open Glob

inductive ClientMode where
  | maximal
  | minimal
  deriving DecidableEq, Repr

def rawTag : Text := "${tag}.raw".toList

def belowKubernetes : Text := "kubernetes.**".toList

/-- `filter-pre-mux-client-retag-raw.conf` -/
def retagRaw : List (List Text × Retag) :=
  [([belowKubernetes], .rewrite (messageRules rawTag)), (["**".toList], .relabel)]

/-- The tag with which a collector sends a record.  A maximal client processes the
record first, a minimal one only marks the records of containers. -/
def forwarded (mode : ClientMode) (record : Record) (tag : Text) : Option Text :=
  match mode with
  | .maximal => ingress record tag
  | .minimal => (firstMatch retagRaw tag).bind fun
    | .relabel => some tag
    | .rewrite rules => rewriteTag rules tag record

/-- The tag at the end of the mux's own `@INGRESS`: `sent` is the record that the
mux gets, `later` the one in its `@INGRESS`. -/
def throughMux (mode : ClientMode) (undefined : Option Text) (record sent later : Record)
    (tag : Text) : Option Text :=
  (forwarded mode record tag).bind fun t => (mux undefined sent t).bind (ingress later)

def marks : List Text := [".raw".toList, ".mux".toList]

theorem expand_tag {w : Text} (hw : '$' ∉ w) (tag : Text) (group : Nat → Text) :
    expand tag group ("${tag}".toList ++ w) = tag ++ w := by
  change tag ++ expand tag group w = tag ++ w
  rw [expand_plain hw]

theorem Rule.retag_cases {r : Rule} {tag t : Text} (hnew : ∀ group, expand tag group r.tag = t)
    (record : Record) : r.retag tag record = none ∨ r.retag tag record = some t := by
  cases h : r.retag tag record with
  | none => exact .inl rfl
  | some s =>
    obtain ⟨group, rfl, -⟩ := Rule.retag_some h
    exact .inr (congrArg some (hnew group))

theorem rewriteTag_inverted (key pattern : Text) {new other t s tag : Text}
    (hnew : ∀ group, expand tag group new = t) (hother : ∀ group, expand tag group other = s)
    (hempty : ((Regex.compile .ruby pattern).bind fun p => p.search []) = none)
    (record : Record) :
    rewriteTag [⟨key, pattern, new, false⟩, ⟨key, pattern, other, true⟩] tag record = some t ∨
      rewriteTag [⟨key, pattern, new, false⟩, ⟨key, pattern, other, true⟩] tag record = some s := by
  rw [rewriteTag_cons, rewriteTag_cons]
  simp only [Rule.retag, Bool.false_eq_true, ↓reduceIte, hnew, hother, Rule.search]
  cases hsearch : (Regex.compile .ruby pattern).bind fun p => p.search (record key) with
  | none =>
    right
    split <;> rfl
  | some m =>
    have hne : record key ≠ [] := by
      intro hkey
      rw [hkey, hempty] at hsearch
      contradiction
    left
    rw [if_neg hne]
    rfl

theorem rewriteTag_raw (tag : Text) (record : Record) :
    rewriteTag (messageRules rawTag) tag record = some (tag ++ ".raw".toList) := by
  have hraw (group : Nat → Text) := expand_tag (w := ".raw".toList) (by decide) tag group
  have hboth := rewriteTag_inverted messageKey anyText hraw hraw rfl record
  exact hboth.elim id id

theorem rewriteTag_processed (tag : Text) (record : Record) :
    ∃ x ∈ marks, rewriteTag processedRules tag record = some (tag ++ x) := by
  have hraw (group : Nat → Text) := expand_tag (w := ".raw".toList) (by decide) tag group
  have hmux (group : Nat → Text) := expand_tag (w := ".mux".toList) (by decide) tag group
  have htime := rewriteTag_inverted "@timestamp".toList anyText hmux hraw rfl record
  rw [processedRules, rewriteTag_cons]
  have hcases := Rule.retag_cases (r := containerRule "^k8s_kube-eventrouter".toList rawTag) hraw
  rcases hcases record with hrouter | hrouter
  · rcases htime with h | h
    · exact ⟨".mux".toList, by decide, by rw [← h]; exact congrArg (Option.or · _) hrouter⟩
    · exact ⟨".raw".toList, by decide, by rw [← h]; exact congrArg (Option.or · _) hrouter⟩
  · exact ⟨".raw".toList, by decide, congrArg (Option.or · _) hrouter⟩

def IsMark (y : Text) : Prop := '_' ∉ y ∧ '\n' ∉ y

theorem isMark_of_mem {x : Text} (hx : x ∈ marks) : IsMark x := by
  have hmarks : ∀ x ∈ marks, '_' ∉ x ∧ '\n' ∉ x := by decide
  exact hmarks x hx

/-- An operations tag has its namespace in front of the mark. -/
theorem covers_mark {value : Option Text}
    (hwords : ∀ p ∈ operationsProjects value, p.all isWordChar = true) {t y : Text}
    (ht : '\n' ∉ t) (hy : IsMark y) :
    matchesAny (ocpFluentdTags value) (t ++ y) = matchesAny (ocpFluentdTags value) t := by
  have hline : '\n' ∉ t ++ y := by
    rw [List.mem_append, not_or]
    exact ⟨ht, hy.2⟩
  rw [Bool.eq_iff_iff, covers_enclosed hwords hline, covers_enclosed hwords ht]
  constructor
  · rintro ⟨u, v, w, htext, hv⟩
    have hsplit : t ++ y = (u ++ '_' :: v) ++ '_' :: w := by
      rw [htext, List.append_assoc]
      rfl
    rcases List.append_eq_append_iff.mp hsplit with ⟨a, -, rfl⟩ | ⟨a, rfl, ha⟩
    · exact absurd (List.mem_append_right a List.mem_cons_self) hy.1
    · cases a with
      | nil =>
        obtain rfl : '_' :: w = y := ha
        exact absurd List.mem_cons_self hy.1
      | cons c a =>
        obtain rfl : '_' = c := (List.cons.inj ha).1
        exact ⟨u, v, a, by rw [List.append_assoc]; rfl, hv⟩
  · rintro ⟨u, v, w, rfl, hv⟩
    exact ⟨u, v, w ++ y, by simp, hv⟩

def OfContainer (t : Text) : Prop := ∃ r, '\n' ∉ r ∧ t = "kubernetes".toList ++ '.' :: r

def hostTags : List Text :=
  ["journal.system".toList, "audit.log".toList, "system.var.log.messages".toList]

theorem ofContainer_of_begins {t : Text} (hline : '\n' ∉ t) (h : "kubernetes.".toList <+: t) :
    OfContainer t := by
  obtain ⟨r, rfl⟩ := h
  rw [List.mem_append, not_or] at hline
  exact ⟨r, hline.2, rfl⟩

theorem OfContainer.append {t y : Text} (h : OfContainer t) (hy : IsMark y) :
    OfContainer (t ++ y) := by
  obtain ⟨r, hr, rfl⟩ := h
  refine ⟨r ++ y, ?_, by rw [List.append_assoc]; rfl⟩
  rw [List.mem_append, not_or]
  exact ⟨hr, hy.2⟩

theorem OfContainer.inner {t : Text} (h : OfContainer t) : Inner t := by
  obtain ⟨r, hr, rfl⟩ := h
  refine .of_head (c := 'k') ?_ rfl (by decide)
  exact Text.not_mem_split (by decide) (by decide) hr

theorem matchesTag_kubernetes {t : Text} (h : OfContainer t) :
    matchesTag belowKubernetes t = true := by
  obtain ⟨r, hr, rfl⟩ := h
  have hparse : parse belowKubernetes =
      [lits "kubernetes".toList ++ [Item.partEnd, .many '\n']] := by decide
  have hdot : '\n' ∉ '.' :: r := List.not_mem_cons_of_ne_of_not_mem (by decide) hr
  rw [matchesTag, hparse, List.any_cons, List.any_nil, Bool.or_false, accepts_lits_append]
  refine ⟨'.' :: r, rfl, ?_⟩
  change (true && accepts tagEnd [.many '\n'] true ('.' :: r)) = true
  rw [Bool.true_and, accepts_many (b := false) rfl]
  exact ⟨_, [], (List.append_nil _).symm, hdot, rfl⟩

theorem OfContainer.not_journal {t : Text} (h : OfContainer t) :
    matchesAny ["journal".toList] t = false := by
  obtain ⟨r, -, rfl⟩ := h
  rfl

theorem retagJournal_cases {tag t : Text} {record : Record}
    (h : rewriteTag retagJournal tag record = some t) : OfContainer t ∨ t ∈ hostTags := by
  have hline := (retagJournal_inner h).line
  obtain ⟨r, hr, ht⟩ := rewriteTag_some h
  obtain ⟨group, rfl, -⟩ := Rule.retag_some ht
  have hfixed : ∀ s ∈ fixedTags, "kubernetes.".toList <+: s := by decide +kernel
  have hstart : "kubernetes.".toList <+: markStart := by decide +kernel
  have hcontainer {s : Text} (hs : s ∈ fixedTags) (hrule : r.tag = s) :
      OfContainer (expand tag group r.tag) := by
    apply ofContainer_of_begins hline
    rw [hrule, fixedTags_expand hs]
    exact hfixed s hs
  simp only [retagJournal, List.mem_cons, List.not_mem_nil, or_false] at hr
  rcases hr with rfl | rfl | rfl | rfl | rfl | rfl | rfl | rfl | rfl
  · exact .inl (hcontainer (by simp [fixedTags]) rfl)
  · exact .inl (hcontainer (by simp [fixedTags]) rfl)
  · exact .inl (hcontainer (by simp [fixedTags]) rfl)
  · left
    apply ofContainer_of_begins hline
    rw [kube_expand]
    exact hstart.trans (List.prefix_append _ _)
  · left
    apply ofContainer_of_begins hline
    rw [openshiftDash_expand]
    exact hstart.trans (List.prefix_append _ _)
  · exact .inl (hcontainer (by simp [fixedTags]) rfl)
  · exact .inl (hcontainer (by simp [fixedTags]) rfl)
  · exact .inl (hcontainer (by simp [fixedTags]) rfl)
  · right
    rw [expand_plain (by decide)]
    decide

theorem Input.cases_ingress {tag t : Text} {record : Record} (htag : Input tag)
    (h : ingress record tag = some t) : OfContainer t ∨ t ∈ hostTags := by
  cases htag with
  | file c =>
    obtain rfl : c.fileTag = t := Option.some.inj h
    exact .inl (ofContainer_of_begins c.fileTag_line ⟨_, rfl⟩)
  | journal => exact retagJournal_cases h
  | audit =>
    obtain rfl : "audit.log".toList = t := Option.some.inj h
    exact .inr (by decide)
  | syslog =>
    obtain rfl : "system.var.log.messages".toList = t := Option.some.inj h
    exact .inr (by decide)

/-- What is processed elsewhere keeps its tag in front of a mark. -/
theorem mux_processed (undefined : Option Text) (sent : Record) {t : Text}
    (hjournal : matchesAny ["journal".toList] t = false)
    (hprocessed : matchesAny processedTags t = true) :
    ∃ y ∈ [] :: marks, mux undefined sent t = some (t ++ y) := by
  unfold mux muxSections
  rw [firstMatch_cons, firstMatch_cons, firstMatch_cons, hjournal, hprocessed]
  cases matchesAny ["**.raw".toList] t with
  | true => exact ⟨[], List.mem_cons_self, congrArg some (List.append_nil t).symm⟩
  | false =>
    obtain ⟨y, hy, hmux⟩ := rewriteTag_processed t sent
    exact ⟨y, List.mem_cons_of_mem [] hy, hmux⟩

theorem hostTags_mux : ∀ t ∈ hostTags,
    matchesAny ["journal".toList] t = false ∧ matchesAny processedTags t = true := by
  decide +kernel

theorem OfContainer.processed {t : Text} (h : OfContainer t) :
    matchesAny processedTags t = true :=
  List.any_eq_true.mpr ⟨belowKubernetes, by decide, matchesTag_kubernetes h⟩

def destination (value : Option Text) (record : Record) (tag : Text) :
    Option Cluster × Option NameType :=
  (cluster value record tag, indexName value tag)

/-- A mark leaves the destination as it is when it hides no tag of the system. -/
theorem destination_mark {value : Option Text}
    (hwords : ∀ p ∈ operationsProjects value, p.all isWordChar = true) {t y : Text}
    (ht : Inner t) (hmarked : Inner (t ++ y)) (hy : IsMark y)
    (hsystem : matchesAny systemTags (t ++ y) = matchesAny systemTags t)
    (hindex : matchesAny indexTags (t ++ y) = matchesAny indexTags t) (later record : Record) :
    destination value later (t ++ y) = destination value record t := by
  unfold destination
  rw [cluster_inner value later hmarked, cluster_inner value record ht,
    indexName_eq value hmarked.line, indexName_eq value ht.line, hsystem, hindex,
    covers_mark hwords ht.line hy, covers_outputTag hwords]
  simp

theorem OfContainer.destination_mark {value : Option Text}
    (hwords : ∀ p ∈ operationsProjects value, p.all isWordChar = true) {t y : Text}
    (ht : OfContainer t) (hy : IsMark y) (later record : Record) :
    destination value later (t ++ y) = destination value record t := by
  apply Fluentd.destination_mark hwords ht.inner (ht.append hy).inner hy
  · obtain ⟨r, -, rfl⟩ := ht
    rfl
  · obtain ⟨r, -, rfl⟩ := ht
    rfl

theorem isMark_cons {y : Text} (hy : y ∈ [] :: marks) : IsMark y := by
  rcases List.mem_cons.mp hy with rfl | hy
  · exact ⟨List.not_mem_nil, List.not_mem_nil⟩
  · exact isMark_of_mem hy

theorem hostTags_destination {value : Option Text}
    (hwords : ∀ p ∈ operationsProjects value, p.all isWordChar = true) {t y : Text}
    (ht : t ∈ hostTags) (hy : y ∈ [] :: marks) (later record : Record) :
    destination value later (t ++ y) = destination value record t := by
  have hchecked : ∀ t ∈ hostTags, ∀ y ∈ [] :: marks,
      ('\n' ∉ t ++ y ∧ t ++ y ∉ ownTags) ∧
        matchesAny systemTags (t ++ y) = matchesAny systemTags t ∧
        matchesAny indexTags (t ++ y) = matchesAny indexTags t := by
    decide +kernel
  obtain ⟨hmarked, hsystem, hindex⟩ := hchecked t ht y hy
  have hplain := (hchecked t ht [] List.mem_cons_self).1
  rw [List.append_nil] at hplain
  exact destination_mark hwords ⟨hplain.1, hplain.2⟩ ⟨hmarked.1, hmarked.2⟩ (isMark_cons hy)
    hsystem hindex later record

theorem OfContainer.through {t : Text} (h : OfContainer t) (undefined : Option Text)
    (sent later : Record) :
    ∃ y, IsMark y ∧ (mux undefined sent t).bind (ingress later) = some (t ++ y) := by
  obtain ⟨y, hy, hmux⟩ := mux_processed undefined sent h.not_journal h.processed
  refine ⟨y, isMark_cons hy, ?_⟩
  rw [hmux, Option.bind_some, ingress, (h.append (isMark_cons hy)).not_journal]
  rfl

theorem hostTags_through {t : Text} (h : t ∈ hostTags) (undefined : Option Text)
    (sent later : Record) :
    ∃ y ∈ [] :: marks, (mux undefined sent t).bind (ingress later) = some (t ++ y) := by
  obtain ⟨hjournal, hprocessed⟩ := hostTags_mux t h
  obtain ⟨y, hy, hmux⟩ := mux_processed undefined sent hjournal hprocessed
  have hother : ∀ t ∈ hostTags, ∀ y ∈ [] :: marks,
      matchesAny ["journal".toList] (t ++ y) = false := by
    decide +kernel
  refine ⟨y, hy, ?_⟩
  rw [hmux, Option.bind_some, ingress, hother t h y hy]
  rfl

theorem through_destination {value undefined : Option Text}
    (hwords : ∀ p ∈ operationsProjects value, p.all isWordChar = true) {t : Text}
    (ht : OfContainer t ∨ t ∈ hostTags) (sent later record last : Record) :
    ((mux undefined sent t).bind (ingress later)).map (destination value last) =
      some (destination value record t) := by
  rcases ht with ht | ht
  · obtain ⟨y, hy, hthrough⟩ := ht.through undefined sent later
    rw [hthrough, Option.map_some, ht.destination_mark hwords hy last record]
  · obtain ⟨y, hy, hthrough⟩ := hostTags_through ht undefined sent later
    rw [hthrough, Option.map_some, hostTags_destination hwords ht hy last record]

theorem destination_record {value : Option Text}
    (hwords : ∀ p ∈ operationsProjects value, p.all isWordChar = true) {t : Text}
    (ht : OfContainer t ∨ t ∈ hostTags) {last direct : Record} :
    destination value last t = destination value direct t := by
  have hempty : IsMark [] := ⟨List.not_mem_nil, List.not_mem_nil⟩
  rcases ht with ht | ht
  · have hmark := ht.destination_mark hwords hempty last direct
    rwa [List.append_nil] at hmark
  · have hmark := hostTags_destination hwords ht List.mem_cons_self last direct
    rwa [List.append_nil] at hmark

theorem forwarded_container {t : Text} (h : OfContainer t) (record : Record) :
    forwarded .minimal record t = some (t ++ ".raw".toList) := by
  have hmatch : matchesAny [belowKubernetes] t = true := by
    rw [matchesAny, List.any_cons, matchesTag_kubernetes h]
    rfl
  rw [forwarded, retagRaw, firstMatch_cons, if_pos hmatch]
  exact rewriteTag_raw t record

/-- A record comes to the same cluster with the same family of index whether its
collector sends it there itself or through a mux, and it is lost on both ways or
on none.  A minimal client passes on the record as it was read. -/
theorem mux_transparent (mode : ClientMode) (undefined : Option Text) {value : Option Text}
    (hwords : ∀ p ∈ operationsProjects value, p.all isWordChar = true) {tag : Text}
    (htag : Input tag) {record later : Record} (hlater : mode = .minimal → later = record)
    (sent last direct : Record) :
    (throughMux mode undefined record sent later tag).map (destination value last) =
      (ingress record tag).map (destination value direct) := by
  cases mode with
  | maximal =>
    rw [throughMux, forwarded]
    cases hingress : ingress record tag with
    | none => rfl
    | some t =>
      exact through_destination hwords (htag.cases_ingress hingress) sent later direct last
  | minimal =>
    obtain rfl := hlater rfl
    cases htag with
    | file c =>
      have hcontainer : OfContainer c.fileTag := ofContainer_of_begins c.fileTag_line ⟨_, rfl⟩
      have hraw : IsMark ".raw".toList := isMark_of_mem (by decide)
      rw [throughMux, forwarded_container hcontainer, Option.bind_some,
        through_destination hwords (.inl (hcontainer.append hraw)) sent later direct last,
        hcontainer.destination_mark hwords hraw direct direct]
      rfl
    | journal =>
      have hsent : forwarded .minimal later "journal".toList = some "journal".toList := rfl
      have hmux : mux undefined sent "journal".toList = some "journal".toList := rfl
      rw [throughMux, hsent, Option.bind_some, hmux, Option.bind_some]
      cases hingress : ingress later "journal".toList with
      | none => rfl
      | some t =>
        exact congrArg some (destination_record hwords (Input.journal.cases_ingress hingress))
    | audit => exact through_destination hwords (.inr (by decide)) sent later direct last
    | syslog => exact through_destination hwords (.inr (by decide)) sent later direct last

/-- The records of a container in a project's namespace, through a mux with the
default projects. -/
theorem mux_transparent_decoyPod :
    (throughMux .minimal none (fun _ => []) (fun _ => []) (fun _ => []) decoyPod.fileTag).map
        (destination none fun _ => []) =
      (ingress (fun _ => []) decoyPod.fileTag).map (destination none fun _ => []) :=
  mux_transparent .minimal none (by decide) (.file decoyPod) (fun _ => rfl) _ _ _

end AggregatedLogging.Fluentd
