import AggregatedLogging.Fluentd.Mux
import AggregatedLogging.Regex.Outcomes
import AggregatedLogging.Ruby.Json
import AggregatedLogging.Ruby.Hash
import Mathlib.Data.List.Infix

/-! External records at the end of `@MUX`: the filter that decides on their namespace, and the
tags that they get by it. -/
namespace AggregatedLogging.Fluentd

open Glob Regex Ruby

/-- `record.fetch('kubernetes', Hash.new)['namespace_id']`, with `nil` for what is missing.  A
text is asked whether it contains the key. -/
def fetchId (record : Fields) : Except RubyError Json :=
  match record.lookup "kubernetes".toList with
  | none => .ok .null
  | some (.obj kubernetes) => .ok ((kubernetes.lookup "namespace_id".toList).getD .null)
  | some (.str s) =>
    .ok (if "namespace_id".toList <:+: s then .str "namespace_id".toList else .null)
  | some (.int _) | some (.arr _) => .error .typeError
  | some .null | some (.bool _) | some (.decimal _ _) => .error .noMethodError

def isNil : Json → Bool
  | .null => true
  | _ => false

/-- The namespace in a tag `project.NS`. -/
def projectPart (tag : Text) : Option Text :=
  let tagParts := splitDots tag
  if tagParts[0]? = some "project".toList then tagParts[1]? else none

def Rule.retagBy (search : Text → Text → Option Match) (r : Rule) (tag : Text) (record : Record) :
    Option Text :=
  if r.invert then
    match search r.pattern (record r.key) with
    | none => some (expand tag (fun _ => []) r.tag)
    | some _ => none
  else if record r.key = [] then none
  else (search r.pattern (record r.key)).map fun m =>
    expand tag (fun i => (m.group i).getD []) r.tag

def idRule : Rule := ⟨"mux_need_k8s_meta".toList, "^false$".toList, "mux".toList, false⟩

structure Searches (search : Text → Text → Option Match) : Prop where
  id : ∀ s, search idRule.pattern s = idRule.search s
  namespace_ : ∀ s, search namespaceRule.pattern s = namespaceRule.search s

section Filter

variable (search : Text → Text → Option Match) (toS : Json → Text) (undefined : Option Text)

def undefinedNamespace : Text := undefined.getD ".orphaned".toList

def muxNamespaceName (tag : Text) (record : Fields) : Json :=
  Json.orElse (record.lookup "namespace_name".toList)
    (.str ((projectPart tag).getD (undefinedNamespace undefined)))

def namespaceUuid (record : Fields) : Option Json :=
  (record.lookup "namespace_uuid".toList).filter Json.truthy

/-- `namespace_uuid` or the id in the field `kubernetes`, and whether it is the latter and is
there. -/
def namespaceId (record : Fields) : Except RubyError (Json × Bool) :=
  match namespaceUuid record with
  | some uuid => .ok (uuid, false)
  | none => (fetchId record).map fun id => (id, !isNil id)

/-- The filter for all records, at the time `now`. -/
def externalFilter (now tag : Text) (record : Fields) : Except RubyError Fields := do
  let name := muxNamespaceName undefined tag record
  let (id, found) ← namespaceId record
  return merge record
    [("mux_namespace_name".toList, name),
      ("mux_need_k8s_meta".toList, .str (if found then "false".toList else "true".toList)),
      ("kubernetes".toList, .obj [("namespace_name".toList, .str (toS name)),
        ("namespace_id".toList,
          .str (toS (Json.orElse (some id) (.str "orphaned".toList))))]),
      ("time".toList, Json.orElse (record.lookup "@timestamp".toList)
        (Json.orElse (record.lookup "time".toList) (.str now)))]

def fieldTexts (record : Fields) : Record := fun key => ((record.lookup key).map toS).getD []

/-- The tag with which a record leaves the last two sections; a record for which an expression
raises leaves with none. -/
def externalTag (now tag : Text) (record : Fields) : Option Text :=
  (externalFilter toS undefined now tag record).toOption.bind fun r =>
    (externalRules undefined).findSome? fun rule => rule.retagBy search tag (fieldTexts toS r)

def resolvedNamespace (tag : Text) (record : Fields) : Text :=
  toS (muxNamespaceName undefined tag record)

def CarriesId (record : Fields) : Prop :=
  ∃ kubernetes id, record.lookup "kubernetes".toList = some (.obj kubernetes) ∧
    kubernetes.lookup "namespace_id".toList = some id ∧ isNil id = false

/-- No lookup for records that have their id or have no namespace, and a lookup for the
namespace of every other record. -/
structure KeepsNamespace (now tag : Text) (record : Fields) : Prop where
  bare : externalTag search toS undefined now tag record = some "mux".toList ↔
    CarriesId record ∨ resolvedNamespace toS undefined tag record = undefinedNamespace undefined
  lookup : ¬ CarriesId record →
    resolvedNamespace toS undefined tag record ≠ undefinedNamespace undefined →
      externalTag search toS undefined now tag record =
        some (muxFile ++ (resolvedNamespace toS undefined tag record ++ muxSuffix))

def matchesUndefined (s : Text) : Prop :=
  s ≠ [] ∧ (search (undefined.getD "[.]orphaned".toList) s).isSome = true

def undefinedRule : Rule :=
  ⟨"mux_namespace_name".toList, undefined.getD "[.]orphaned".toList, "mux".toList, false⟩

def CanAsk (record : Fields) : Prop :=
  (namespaceUuid record).isSome = true ∨ ∃ id, fetchId record = .ok id

def FindsId (record : Fields) : Prop :=
  namespaceUuid record = none ∧ ∃ id, fetchId record = .ok id ∧ isNil id = false

/-- The id is found where it belongs, the pattern finds the undefined namespace in that very
name only, and every other name is one line. -/
structure Separates (tag : Text) (record : Fields) : Prop where
  asks : CanAsk record
  found : FindsId record →
    CarriesId record ∨ resolvedNamespace toS undefined tag record = undefinedNamespace undefined
  pattern : ¬ FindsId record →
    (matchesUndefined search undefined (resolvedNamespace toS undefined tag record) ↔
      CarriesId record ∨ resolvedNamespace toS undefined tag record = undefinedNamespace undefined)
  line : ¬ FindsId record →
    ¬ matchesUndefined search undefined (resolvedNamespace toS undefined tag record) →
      resolvedNamespace toS undefined tag record ≠ [] ∧
        '\n' ∉ resolvedNamespace toS undefined tag record

end Filter

section Rules

variable {search : Text → Text → Option Match} {tag : Text} {record : Record}

theorem Rule.retagBy_fixed {r : Rule} (hinvert : r.invert = false)
    (hfixed : ∀ tag group, expand tag group r.tag = r.tag) :
    r.retagBy search tag record = some r.tag ↔
      record r.key ≠ [] ∧ (search r.pattern (record r.key)).isSome = true := by
  rw [Rule.retagBy, if_neg (by rw [hinvert]; exact Bool.false_ne_true)]
  by_cases hempty : record r.key = []
  · rw [if_pos hempty]
    simp [hempty]
  · rw [if_neg hempty]
    simp only [hfixed, Option.map_eq_some_iff, Option.isSome_iff_exists]
    constructor
    · rintro ⟨m, hm, -⟩
      exact ⟨hempty, m, hm⟩
    · rintro ⟨-, m, hm⟩
      exact ⟨m, hm, trivial⟩

theorem Rule.retagBy_none {r : Rule} (hinvert : r.invert = false)
    (h : ¬ (record r.key ≠ [] ∧ (search r.pattern (record r.key)).isSome = true)) :
    r.retagBy search tag record = none := by
  rw [Rule.retagBy, if_neg (by rw [hinvert]; exact Bool.false_ne_true)]
  split
  · rfl
  · rename_i hne
    have hnone : search r.pattern (record r.key) = none := by
      rw [← Option.not_isSome_iff_eq_none]
      exact fun hsome => h ⟨hne, hsome⟩
    rw [hnone]
    rfl

theorem Rule.retagBy_eq {r : Rule} (h : ∀ s, search r.pattern s = r.search s) :
    r.retagBy search tag record = r.retag tag record := by
  rw [Rule.retagBy, h]
  rfl

theorem expand_mux (tag : Text) (group : Nat → Text) :
    expand tag group "mux".toList = "mux".toList :=
  rfl

theorem namespaceRule_retag (hne : record "mux_namespace_name".toList ≠ [])
    (hline : '\n' ∉ record "mux_namespace_name".toList) :
    namespaceRule.retag tag record =
      some (muxFile ++ (record "mux_namespace_name".toList ++ muxSuffix)) := by
  have hcompile : compile .ruby namespaceRule.pattern = some namespaceRegex := rfl
  have hdot (s : State) : (Node.atom .dot).run Dialect.ruby.flags s = s.eat isInline := rfl
  have htake : (record "mux_namespace_name".toList).takeWhile isInline =
      record "mux_namespace_name".toList := by
    apply List.takeWhile_eq_self_iff.mpr
    exact List.all_eq_true.mp (all_isInline.mpr hline)
  have hrun := captured_run_head hdot 1 [] (record "mux_namespace_name".toList) fun _ => none
  rw [htake, if_neg hne] at hrun
  have hsearch : namespaceRule.search (record "mux_namespace_name".toList) = some
      ⟨.start (record "mux_namespace_name".toList),
        ⟨⟨(record "mux_namespace_name".toList).reverse ++ [],
          (record "mux_namespace_name".toList).dropWhile isInline⟩,
          Captures.set (fun _ => none) 1 (record "mux_namespace_name".toList)⟩⟩ := by
    rw [Rule.search, hcompile, Option.bind_some]
    apply Pattern.search_start
    change (namespaceRegex.node.run Dialect.ruby.flags _).head?.map _ = _
    exact congrArg (Option.map _) hrun
  have hkey : namespaceRule.key = "mux_namespace_name".toList := rfl
  rw [Rule.retag, if_neg (by decide), hkey, if_neg hne, hsearch, Option.map_some, namespaceRule_tag]
  rfl

theorem idRule_retagBy (hsearch : Searches search) {found : Bool}
    (h : record "mux_need_k8s_meta".toList = if found then "false".toList else "true".toList) :
    idRule.retagBy search tag record = if found then some "mux".toList else none := by
  cases found with
  | true =>
    have hkey : record idRule.key = "false".toList := h
    have hfinds : (idRule.search "false".toList).isSome = true := by decide
    apply (@Rule.retagBy_fixed search tag record idRule rfl expand_mux).mpr
    rw [hsearch.id, hkey]
    exact ⟨by decide, hfinds⟩
  | false =>
    have hkey : record idRule.key = "true".toList := h
    have hfinds : ¬ (idRule.search "true".toList).isSome = true := by decide
    apply @Rule.retagBy_none search tag record idRule rfl
    rw [hsearch.id, hkey]
    exact fun hfound => hfinds hfound.2

theorem namespaceRule_retag_empty (hempty : record "mux_namespace_name".toList = []) :
    namespaceRule.retag tag record = none := by
  have hkey : namespaceRule.key = "mux_namespace_name".toList := rfl
  rw [Rule.retag, if_neg (by decide), hkey, if_pos hempty]

theorem undefinedRule_retagBy {undefined : Option Text} :
    (undefinedRule undefined).retagBy search tag record = some "mux".toList ↔
      matchesUndefined search undefined (record "mux_namespace_name".toList) :=
  Rule.retagBy_fixed rfl expand_mux

theorem externalRules_first (hsearch : Searches search) {undefined : Option Text} {found : Bool}
    (h : record "mux_need_k8s_meta".toList = if found then "false".toList else "true".toList) :
    ((externalRules undefined).findSome? fun rule => rule.retagBy search tag record) =
      (if found then some "mux".toList else none).or
        (((undefinedRule undefined).retagBy search tag record).or
          (namespaceRule.retag tag record)) := by
  rw [← idRule_retagBy hsearch h, ← Rule.retagBy_eq hsearch.namespace_]
  change [idRule, undefinedRule undefined, namespaceRule].findSome? _ = _
  rw [List.findSome?_cons, List.findSome?_cons, List.findSome?_cons, List.findSome?_nil]
  cases idRule.retagBy search tag record <;>
    cases (undefinedRule undefined).retagBy search tag record <;>
    cases namespaceRule.retagBy search tag record <;> rfl

end Rules

section Exact

variable {search : Text → Text → Option Match} {toS : Json → Text} {undefined : Option Text}
variable {now tag : Text} {record : Fields}

theorem namespaceId_cases (record : Fields) :
    (¬ CanAsk record ∧ ∃ e, namespaceId record = .error e) ∨
      (CanAsk record ∧ FindsId record ∧ ∃ id, namespaceId record = .ok (id, true)) ∨
      (CanAsk record ∧ ¬ FindsId record ∧ ∃ id, namespaceId record = .ok (id, false)) := by
  unfold CanAsk FindsId namespaceId
  cases huuid : namespaceUuid record with
  | some uuid => simp
  | none =>
    cases hfetch : fetchId record with
    | error e => simp [Except.map]
    | ok id =>
      cases hid : isNil id with
      | true => simp [Except.map, hid]
      | false => simp [Except.map, hid]

theorem externalFilter_ok {id : Json} {found : Bool} (h : namespaceId record = .ok (id, found)) :
    ∃ r, externalFilter toS undefined now tag record = .ok r ∧
      r.lookup "mux_namespace_name".toList = some (muxNamespaceName undefined tag record) ∧
      r.lookup "mux_need_k8s_meta".toList =
        some (.str (if found then "false".toList else "true".toList)) := by
  rw [externalFilter, h]
  refine ⟨_, rfl, ?_, ?_⟩
  · rw [lookup_merge]
    rfl
  · rw [lookup_merge]
    rfl

theorem externalTag_ok (htoS : ∀ s, toS (.str s) = s) {id : Json} {found : Bool}
    (h : namespaceId record = .ok (id, found)) :
    ∃ texts : Record, externalTag search toS undefined now tag record =
        ((externalRules undefined).findSome? fun rule => rule.retagBy search tag texts) ∧
      texts "mux_namespace_name".toList = resolvedNamespace toS undefined tag record ∧
      texts "mux_need_k8s_meta".toList = if found then "false".toList else "true".toList := by
  obtain ⟨r, hr, hname, hneed⟩ := @externalFilter_ok toS undefined now tag record id found h
  refine ⟨fieldTexts toS r, ?_, ?_, ?_⟩
  · rw [externalTag, hr]
    rfl
  · rw [fieldTexts, hname]
    rfl
  · rw [fieldTexts, hneed]
    exact htoS _

theorem externalTag_raises (h : ¬ CanAsk record) :
    externalTag search toS undefined now tag record = none := by
  rcases namespaceId_cases record with ⟨-, e, he⟩ | ⟨hask, -⟩ | ⟨hask, -⟩
  · rw [externalTag, externalFilter, he]
    rfl
  · exact absurd hask h
  · exact absurd hask h

theorem externalTag_found (hsearch : Searches search) (htoS : ∀ s, toS (.str s) = s)
    (h : FindsId record) :
    externalTag search toS undefined now tag record = some "mux".toList := by
  rcases namespaceId_cases record with ⟨hask, -⟩ | ⟨-, -, id, hid⟩ | ⟨-, hnot, -⟩
  · obtain ⟨-, id, hid, -⟩ := h
    exact absurd (.inr ⟨id, hid⟩) hask
  · obtain ⟨texts, htag, -, hneed⟩ := externalTag_ok htoS hid
    rw [htag, externalRules_first hsearch hneed, if_pos rfl, Option.some_or]
  · exact absurd h hnot

theorem externalTag_needed (hsearch : Searches search) (htoS : ∀ s, toS (.str s) = s)
    (hask : CanAsk record)
    (h : ¬ FindsId record) :
    (matchesUndefined search undefined (resolvedNamespace toS undefined tag record) →
      externalTag search toS undefined now tag record = some "mux".toList) ∧
    (¬ matchesUndefined search undefined (resolvedNamespace toS undefined tag record) →
      ∃ texts : Record,
        texts "mux_namespace_name".toList = resolvedNamespace toS undefined tag record ∧
        externalTag search toS undefined now tag record = namespaceRule.retag tag texts) := by
  rcases namespaceId_cases record with ⟨hnot, -⟩ | ⟨-, hfinds, -⟩ | ⟨-, -, id, hid⟩
  · exact absurd hask hnot
  · exact absurd hfinds h
  · obtain ⟨texts, htag, hname, hneed⟩ := externalTag_ok htoS hid
    rw [htag, externalRules_first hsearch hneed, if_neg Bool.false_ne_true, Option.none_or]
    constructor
    · intro hmatches
      rw [← hname] at hmatches
      rw [undefinedRule_retagBy.mpr hmatches, Option.some_or]
    · intro hmatches
      refine ⟨texts, hname, ?_⟩
      rw [← hname] at hmatches
      have hrule : (undefinedRule undefined).retagBy search tag texts = none :=
        Rule.retagBy_none rfl hmatches
      rw [hrule, Option.none_or]

theorem lookup_ne_mux (g : Text) : some (muxFile ++ (g ++ muxSuffix)) ≠ some "mux".toList := by
  intro h
  have hhead := congrArg (Option.map List.head?) h
  exact absurd hhead (by
    change some (some 'k') ≠ some (some 'm')
    decide)

theorem keepsNamespace_iff_found (h : FindsId record)
    (htag : externalTag search toS undefined now tag record = some "mux".toList) :
    KeepsNamespace search toS undefined now tag record ↔
      Separates search toS undefined tag record := by
  constructor
  · intro hkeeps
    have hask : CanAsk record := .inr (h.2.imp fun _ hid => hid.1)
    exact ⟨hask, fun _ => hkeeps.bare.mp htag, fun hnot => absurd h hnot,
      fun hnot => absurd h hnot⟩
  · intro hsep
    constructor
    · exact iff_of_true htag (hsep.found h)
    · intro hid hname
      exact absurd (hsep.found h) (not_or.mpr ⟨hid, hname⟩)

theorem keepsNamespace_iff_matching (hask : CanAsk record) (h : ¬ FindsId record)
    (hmatches : matchesUndefined search undefined (resolvedNamespace toS undefined tag record))
    (htag : externalTag search toS undefined now tag record = some "mux".toList) :
    KeepsNamespace search toS undefined now tag record ↔
      Separates search toS undefined tag record := by
  constructor
  · intro hkeeps
    exact ⟨hask, fun hfinds => absurd hfinds h,
      fun _ => iff_of_true hmatches (hkeeps.bare.mp htag), fun _ hnot => absurd hmatches hnot⟩
  · intro hsep
    have hbare := (hsep.pattern h).mp hmatches
    constructor
    · exact iff_of_true htag hbare
    · intro hid hname
      exact absurd hbare (not_or.mpr ⟨hid, hname⟩)

theorem keepsNamespace_iff_captured (hask : CanAsk record) (h : ¬ FindsId record)
    (hmatches : ¬ matchesUndefined search undefined (resolvedNamespace toS undefined tag record))
    {texts : Record}
    (hname : texts "mux_namespace_name".toList = resolvedNamespace toS undefined tag record)
    (htag : externalTag search toS undefined now tag record = namespaceRule.retag tag texts) :
    KeepsNamespace search toS undefined now tag record ↔
      Separates search toS undefined tag record := by
  have hnot : externalTag search toS undefined now tag record ≠ some "mux".toList := by
    intro hbare
    rw [htag] at hbare
    obtain ⟨g, hg, -⟩ := namespaceRule_retag_some hbare
    exact lookup_ne_mux g (congrArg some hg.symm)
  constructor
  · intro hkeeps
    have hown := mt hkeeps.bare.mpr hnot
    have hkept := hkeeps.lookup (not_or.mp hown).1 (not_or.mp hown).2
    rw [htag] at hkept
    obtain ⟨g, hg, hline⟩ := namespaceRule_retag_some hkept
    have hsame := List.append_cancel_right (List.append_cancel_left hg)
    have hne : resolvedNamespace toS undefined tag record ≠ [] := by
      intro hempty
      rw [← hname] at hempty
      rw [namespaceRule_retag_empty hempty] at hkept
      contradiction
    rw [← hsame] at hline
    exact ⟨hask, fun hfinds => absurd hfinds h, fun _ => iff_of_false hmatches hown,
      fun _ _ => ⟨hne, hline⟩⟩
  · intro hsep
    have hown := mt (hsep.pattern h).mpr hmatches
    constructor
    · exact iff_of_false hnot hown
    · intro _ _
      obtain ⟨hne, hline⟩ := hsep.line h hmatches
      rw [← hname] at hne hline
      rw [htag, namespaceRule_retag hne hline, hname]

theorem keepsNamespace_iff_raising (hask : ¬ CanAsk record) :
    KeepsNamespace search toS undefined now tag record ↔
      Separates search toS undefined tag record := by
  have htag : externalTag search toS undefined now tag record = none := externalTag_raises hask
  constructor
  · intro hkeeps
    exfalso
    by_cases hown : CarriesId record ∨
        resolvedNamespace toS undefined tag record = undefinedNamespace undefined
    · have hbare := hkeeps.bare.mpr hown
      rw [htag] at hbare
      contradiction
    · have hkept := hkeeps.lookup (not_or.mp hown).1 (not_or.mp hown).2
      rw [htag] at hkept
      contradiction
  · intro hsep
    exact absurd hsep.asks hask

/-- Every external record keeps its namespace exactly when its id is found where it belongs and
the pattern tells the undefined namespace from the others. -/
theorem keepsNamespace_iff (hsearch : Searches search) (htoS : ∀ s, toS (.str s) = s) :
    KeepsNamespace search toS undefined now tag record ↔
      Separates search toS undefined tag record := by
  by_cases hask : CanAsk record
  · by_cases hfinds : FindsId record
    · exact keepsNamespace_iff_found hfinds (externalTag_found hsearch htoS hfinds)
    · obtain ⟨hmux, hlookup⟩ := externalTag_needed hsearch htoS hask hfinds
      by_cases hmatches :
          matchesUndefined search undefined (resolvedNamespace toS undefined tag record)
      · exact keepsNamespace_iff_matching hask hfinds hmatches (hmux hmatches)
      · obtain ⟨texts, hname, htag⟩ := hlookup hmatches
        exact keepsNamespace_iff_captured hask hfinds hmatches hname htag
  · exact keepsNamespace_iff_raising hask

def textOf (v : Json) : Text :=
  match v with
  | .str s => s
  | _ => []

def searchCompiled (pattern s : Text) : Option Match :=
  (compile .ruby pattern).bind fun p => p.search s

theorem keepsNamespace_iff_web :
    KeepsNamespace searchCompiled textOf none "2019-03-01".toList "project.web".toList
        [("level".toList, .str "info".toList)] ↔
      Separates searchCompiled textOf none "project.web".toList
        [("level".toList, .str "info".toList)] :=
  keepsNamespace_iff ⟨fun _ => rfl, fun _ => rfl⟩ fun _ => rfl

/-- With `app` as the undefined namespace a record of `my-app` is not looked up. -/
theorem not_keepsNamespace_app :
    ¬ KeepsNamespace searchCompiled textOf (some "app".toList) "2019-03-01".toList "external".toList
      [("namespace_name".toList, .str "my-app".toList)] := by
  intro h
  have hcarries : ¬ CarriesId [("namespace_name".toList, .str "my-app".toList)] := by
    rintro ⟨kubernetes, id, hkubernetes, -⟩
    contradiction
  have hname : resolvedNamespace textOf (some "app".toList) "external".toList
      [("namespace_name".toList, .str "my-app".toList)] ≠
        undefinedNamespace (some "app".toList) := by
    decide
  have hbare : externalTag searchCompiled textOf (some "app".toList) "2019-03-01".toList
      "external".toList [("namespace_name".toList, .str "my-app".toList)] = some "mux".toList := by
    decide +kernel
  rcases h.bare.mp hbare with hid | hsame
  · exact hcarries hid
  · exact hname hsame

end Exact

end AggregatedLogging.Fluentd
