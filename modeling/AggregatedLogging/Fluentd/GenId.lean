import AggregatedLogging.Ruby.Base64
import AggregatedLogging.Ruby.Hash
import AggregatedLogging.Ruby.Split
import AggregatedLogging.Glob.Pattern
import AggregatedLogging.Python.Except

/-! The filter `elasticsearch_genid_ext`, which gives every record an identifier: one that
the record has already, or a drawn one. -/
namespace AggregatedLogging.Fluentd

open Ruby Glob
open Python (map_ok bind_ok)

inductive LogLevel where
  | trace
  | debug
  | info
  | warn
  | error
  | fatal
  deriving DecidableEq, Repr

def LogLevel.onDebug : LogLevel → Bool
  | .trace | .debug => true
  | _ => false

structure GenIdConfig where
  hashIdKey : Text := "_hash".toList
  altKey : Text := []
  altTags : Text := []

abbrev Uuid := { s : Text // s ≠ [] }

abbrev RandomSource := Nat → Uuid

def randomId (source : RandomSource) (drawn : Nat) : Text :=
  strictEncode64 (Object.utf8 (source drawn).val)

/-- `split(/\s+/)`.  White space at the beginning leaves an empty part in front of it. -/
def splitBlanks (s : Text) : List Text :=
  if s.head?.any isSpace ∧ Ruby.words s ≠ [] then [] :: Ruby.words s else Ruby.words s

section Filter

variable (level : LogLevel) (cfg : GenIdConfig) (source : RandomSource)

def GenIdConfig.altKeys : List Text := splitDots cfg.altKey

/-- `GenidMatchClass#match`. -/
def GenIdConfig.matches (tag : Text) : Bool := matchesAny (splitBlanks cfg.altTags) tag

/-- `log.on_debug` with one line for the log. -/
def LogLevel.write (level : LogLevel) (line : Text) : List Text :=
  if level.onDebug then [line] else []

def GenIdConfig.missing (p : Text) : Text :=
  "filter:elasticsearch_genid_ext: ".toList ++ p ++ " in alt_key ".toList ++ cfg.altKey ++
    " is not a key of record.".toList

/-- The loop over the keys, with what it writes to the log.  A missing key leaves nothing;
only the whole alternative key leaves the value that was asked for it. -/
def walkKeys : Json → List Text → Except RubyError (Json × List Text)
  | myid, [] => .ok (myid, [])
  | .obj fields, p :: ps =>
    match fields.lookup p with
    | none =>
      if p = cfg.altKey then .ok (.obj fields, [])
      else .ok (.null, level.write (cfg.missing p))
    | some value => walkKeys value ps
  | _, _ :: _ => .error .noMethodError

/-- What a call leaves: a value, the number of identifiers drawn, and the lines in the log. -/
structure Filtered (α : Type) where
  value : α
  drawn : Nat
  log : List Text := []

def alternativeId (drawn : Nat) (record : Fields) : Except RubyError (Filtered Text) := do
  let (myid, log) ← if Ruby.isBlank cfg.altKey || record.isEmpty then pure (.null, [])
    else walkKeys level cfg (.obj record) cfg.altKeys
  match myid.text? with
  | some value => return { value, drawn, log }
  | none => return { value := randomId source drawn, drawn := drawn + 1, log }

def filter (drawn : Nat) (tag : Text) (record : Fields) :
    Except RubyError (Filtered Fields) := do
  let marked := store cfg.hashIdKey (.str []) record
  let id ← if cfg.matches tag then alternativeId level cfg source drawn marked
    else pure { value := [], drawn }
  if Ruby.isBlank id.value then
    return { id with
      value := store cfg.hashIdKey (.str (randomId source id.drawn)) marked
      drawn := id.drawn + 1 }
  else return { id with value := store cfg.hashIdKey (.str id.value) marked }

end Filter

section Lemmas

variable {level : LogLevel} {cfg : GenIdConfig} {source : RandomSource}

theorem utf8_ne {s : Text} (h : s ≠ []) : Object.utf8 s ≠ [] := by
  cases s with
  | nil => contradiction
  | cons c s =>
    intro hnil
    exact String.utf8EncodeChar_ne_nil (List.append_eq_nil_iff.mp hnil).1

theorem randomId_not_blank (source : RandomSource) (drawn : Nat) :
    Ruby.isBlank (randomId source drawn) = false :=
  strictEncode64_not_blank (utf8_ne (source drawn).property)

theorem walkKeys_text (v : Json) (ps : List Text) :
    (walkKeys level cfg v ps).map (fun found => found.1.text?) =
      (dig v ps).map fun found => found.bind Json.text? := by
  induction ps generalizing v with
  | nil => cases v <;> rfl
  | cons p ps ih =>
    cases v with
    | obj fields =>
      rw [walkKeys, dig]
      cases fields.lookup p with
      | none =>
        by_cases hp : p = cfg.altKey
        · rw [if_pos hp]
          rfl
        · rw [if_neg hp]
          rfl
      | some value => exact ih value
    | _ => rfl

theorem walkKeys_log {v : Json} {ps : List Text} {found : Json × List Text}
    (hlevel : level.onDebug = false) (h : walkKeys level cfg v ps = .ok found) : found.2 = [] := by
  induction ps generalizing v with
  | nil =>
    cases v <;> (cases h; rfl)
  | cons p ps ih =>
    cases v with
    | obj fields =>
      rw [walkKeys] at h
      split at h
      · split at h
        · cases h
          rfl
        · cases h
          rw [LogLevel.write, hlevel]
          rfl
      · exact ih h
    | _ => cases h

theorem walkKeys_congr {level' : LogLevel} (h : level.onDebug = level'.onDebug) (v : Json)
    (ps : List Text) : walkKeys level cfg v ps = walkKeys level' cfg v ps := by
  induction ps generalizing v with
  | nil => cases v <;> rfl
  | cons p ps ih =>
    cases v with
    | obj fields =>
      rw [walkKeys, walkKeys, LogLevel.write, LogLevel.write, h]
      cases fields.lookup p with
      | none => rfl
      | some value => exact ih value
    | _ => rfl

def textAt (record : Fields) (ps : List Text) : Except RubyError (Option Text) :=
  (dig (.obj record) ps).map fun found => found.bind Json.text?

def Filtered.result (out : Filtered α) : α × Nat := (out.value, out.drawn)

theorem alternativeId_eq (drawn : Nat) (record : Fields) (hrecord : record.isEmpty = false) :
    (alternativeId level cfg source drawn record).map Filtered.result =
      (if Ruby.isBlank cfg.altKey then .ok none else textAt record cfg.altKeys).map fun found =>
        found.elim (randomId source drawn, drawn + 1) fun id => (id, drawn) := by
  rw [alternativeId, hrecord, Bool.or_false]
  cases Ruby.isBlank cfg.altKey with
  | true => rfl
  | false =>
    rw [textAt, ← @walkKeys_text level cfg]
    change ((walkKeys level cfg (.obj record) cfg.altKeys).bind _).map _ =
      ((walkKeys level cfg (.obj record) cfg.altKeys).map fun found => found.1.text?).map _
    cases walkKeys level cfg (.obj record) cfg.altKeys with
    | error e => rfl
    | ok found =>
      change Except.map _ (match found.1.text? with | some id => _ | none => _) =
        Except.ok (found.1.text?.elim _ _)
      cases found.1.text? <;> rfl

theorem alternativeId_congr {level' : LogLevel} {drawn : Nat} {record : Fields}
    (h : level.onDebug = level'.onDebug) :
    alternativeId level cfg source drawn record = alternativeId level' cfg source drawn record := by
  rw [alternativeId, alternativeId, walkKeys_congr h]

theorem alternativeId_log {drawn : Nat} {record : Fields} {out : Filtered Text}
    (hlevel : level.onDebug = false)
    (h : alternativeId level cfg source drawn record = .ok out) : out.log = [] := by
  unfold alternativeId at h
  split at h
  · cases h
    rfl
  · obtain ⟨found, hfound, h⟩ := bind_ok.mp h
    have hlog := walkKeys_log hlevel hfound
    cases htext : found.1.text? with
    | none =>
      simp only [htext] at h
      cases h
      exact hlog
    | some id =>
      simp only [htext] at h
      cases h
      exact hlog

theorem isEmpty_store (key : Text) (value : Json) (record : Fields) :
    (store key value record).isEmpty = false := by
  cases record with
  | nil => rfl
  | cons e record =>
    rw [store]
    split <;> rfl

/-- The text that stands at the alternative key, where it is looked for. -/
def GenIdConfig.lookedUp (cfg : GenIdConfig) (tag : Text) (record : Fields) :
    Except RubyError (Option Text) :=
  if cfg.matches tag = true ∧ Ruby.isBlank cfg.altKey = false then
    textAt (store cfg.hashIdKey (.str []) record) cfg.altKeys
  else .ok none

/-- The end of the filter without the lines for the log. -/
theorem settled_result (marked : Fields) (r : Except RubyError (Filtered Text)) :
    (r.bind fun id => if Ruby.isBlank id.value then
      Except.ok { id with
        value := store cfg.hashIdKey (.str (randomId source id.drawn)) marked, drawn := id.drawn + 1 }
      else Except.ok { id with
        value := store cfg.hashIdKey (.str id.value) marked }).map Filtered.result =
    (r.map Filtered.result).map fun id => if Ruby.isBlank id.1 then
      (store cfg.hashIdKey (.str (randomId source id.2)) marked, id.2 + 1)
      else (store cfg.hashIdKey (.str id.1) marked, id.2) := by
  cases r with
  | error e => rfl
  | ok id =>
    change Except.map _ (if Ruby.isBlank id.value = true then _ else _) =
      Except.ok (if Ruby.isBlank id.value = true then _ else _)
    cases Ruby.isBlank id.value with
    | true => rfl
    | false => rfl

theorem filter_eq (drawn : Nat) (tag : Text) (record : Fields) :
    (filter level cfg source drawn tag record).map Filtered.result =
      (cfg.lookedUp tag record).map fun found =>
        let marked := store cfg.hashIdKey (.str []) record
        (found.filter fun id => !Ruby.isBlank id).elim
          (store cfg.hashIdKey (.str (randomId source drawn)) marked, drawn + 1)
          fun id => (store cfg.hashIdKey (.str id) marked, drawn) := by
  have hrandom := randomId_not_blank source drawn
  rw [filter, GenIdConfig.lookedUp]
  cases hmatches : cfg.matches tag with
  | false => rfl
  | true =>
    have hid := @alternativeId_eq level cfg source drawn _
      (isEmpty_store cfg.hashIdKey (.str []) record)
    refine (settled_result _ _).trans ?_
    rw [hid]
    cases hblank : Ruby.isBlank cfg.altKey with
    | true =>
      change Except.ok (if Ruby.isBlank (randomId source drawn) = true then _ else _) = _
      rw [hrandom]
      rfl
    | false =>
      rw [if_neg Bool.false_ne_true, if_pos ⟨rfl, rfl⟩]
      rcases textAt (store cfg.hashIdKey (.str []) record) cfg.altKeys with e | found
      · rfl
      · cases found with
        | none =>
          change Except.ok (if Ruby.isBlank (randomId source drawn) = true then _ else _) = _
          rw [hrandom]
          rfl
        | some id =>
          change Except.ok (if Ruby.isBlank id = true then _ else _) = _
          cases hid : Ruby.isBlank id with
          | true =>
            rw [if_pos rfl]
            simp [Except.map, Option.filter, hid]
          | false =>
            rw [if_neg Bool.false_ne_true]
            simp [Except.map, Option.filter, hid]

theorem filter_log {drawn : Nat} {tag : Text} {record : Fields} {out : Filtered Fields}
    (hlevel : level.onDebug = false) (h : filter level cfg source drawn tag record = .ok out) :
    out.log = [] := by
  unfold filter at h
  split at h
  · obtain ⟨id, hid, h⟩ := bind_ok.mp h
    have hlog := alternativeId_log hlevel hid
    dsimp only at h
    split at h
    · cases h
      exact hlog
    · cases h
      exact hlog
  · cases h
    rfl

end Lemmas

/-- Two runs that differ in the level of the log raise both, or return the same record and
draw the same; only in the log they differ, which has no lines above the level of debugging. -/
theorem filter_level (level level' : LogLevel) (cfg : GenIdConfig) (source : RandomSource)
    (drawn : Nat) (tag : Text) (record : Fields) :
    (filter level cfg source drawn tag record).map Filtered.result =
        (filter level' cfg source drawn tag record).map Filtered.result ∧
      (level.onDebug = level'.onDebug →
        filter level cfg source drawn tag record = filter level' cfg source drawn tag record) ∧
      (level.onDebug = false → ∀ out, filter level cfg source drawn tag record = .ok out →
        out.log = []) := by
  refine ⟨by rw [filter_eq, filter_eq], fun hlevel => ?_, fun hlevel _ h => filter_log hlevel h⟩
  rw [filter, filter, alternativeId_congr hlevel]

/-- The identifier that a record brings with it: a text at the alternative key that is not
blank. -/
def GenIdConfig.givenId (cfg : GenIdConfig) (tag : Text) (record : Fields) : Option Text :=
  if cfg.matches tag then
    ((follow (.obj record) cfg.altKeys).bind Json.text?).filter fun id => !Ruby.isBlank id
  else none

/-- A record with an identifier, next to how many were drawn by then. -/
structure HasId (cfg : GenIdConfig) (source : RandomSource) (drawn : Nat) (tag : Text)
    (record : Fields) (out : Fields × Nat) : Prop where
  others : ∀ k, k ≠ cfg.hashIdKey → out.1.lookup k = record.lookup k
  given : ∀ id, cfg.givenId tag record = some id →
    out.1.lookup cfg.hashIdKey = some (.str id) ∧ out.2 = drawn
  fresh : cfg.givenId tag record = none →
    out.1.lookup cfg.hashIdKey = some (.str (randomId source drawn)) ∧ out.2 = drawn + 1
  notBlank : ∃ id, out.1.lookup cfg.hashIdKey = some (.str id) ∧ Ruby.isBlank id = false

def GetsId (level : LogLevel) (cfg : GenIdConfig) (source : RandomSource) (drawn : Nat)
    (tag : Text) (record : Fields) : Prop :=
  ∃ out, filter level cfg source drawn tag record = .ok out ∧
    HasId cfg source drawn tag record out.result

theorem getsId_result {level : LogLevel} {cfg : GenIdConfig} {source : RandomSource} {drawn : Nat}
    {tag : Text} {record : Fields} :
    GetsId level cfg source drawn tag record ↔
      ∃ out, (filter level cfg source drawn tag record).map Filtered.result = .ok out ∧
        HasId cfg source drawn tag record out := by
  constructor
  · rintro ⟨out, hout, hid⟩
    exact ⟨out.result, map_ok.mpr ⟨out, hout, rfl⟩, hid⟩
  · rintro ⟨_, hout, hid⟩
    obtain ⟨out, hfilter, rfl⟩ := map_ok.mp hout
    exact ⟨out, hfilter, hid⟩

section Ids

variable {level : LogLevel} {cfg : GenIdConfig} {source : RandomSource} {drawn : Nat} {tag : Text}
  {record : Fields}

theorem textAt_store {key : Text} {value : Json} {ps : List Text} (h : ps.head? ≠ some key) :
    textAt (store key value record) ps = textAt record ps := by
  cases ps with
  | nil => rfl
  | cons p ps =>
    have hp : p ≠ key := fun heq => h (congrArg some heq)
    rw [textAt, textAt, dig, dig, lookup_store, if_neg hp]

theorem hasId_store {found : Option Text}
    (hfound : cfg.givenId tag record = found.filter fun id => !Ruby.isBlank id) :
    HasId cfg source drawn tag record
      ((found.filter fun id => !Ruby.isBlank id).elim
        (store cfg.hashIdKey (.str (randomId source drawn)) (store cfg.hashIdKey (.str []) record),
          drawn + 1)
        fun id => (store cfg.hashIdKey (.str id) (store cfg.hashIdKey (.str []) record), drawn)) := by
  have hothers (id : Text) (k : Text) (hk : k ≠ cfg.hashIdKey) :
      (store cfg.hashIdKey (.str id) (store cfg.hashIdKey (.str []) record)).lookup k =
        record.lookup k := by
    rw [lookup_store, if_neg hk, lookup_store, if_neg hk]
  have hid (id : Text) :
      (store cfg.hashIdKey (.str id) (store cfg.hashIdKey (.str []) record)).lookup cfg.hashIdKey =
        some (.str id) := by
    rw [lookup_store, if_pos rfl]
  cases hfilter : found.filter fun id => !Ruby.isBlank id with
  | none =>
    rw [hfilter] at hfound
    refine ⟨hothers _, ?_, fun _ => ⟨hid _, rfl⟩, _, hid _, randomId_not_blank source drawn⟩
    intro id hgiven
    rw [hfound] at hgiven
    contradiction
  | some id =>
    rw [hfilter] at hfound
    refine ⟨hothers _, ?_, ?_, id, hid id, ?_⟩
    · intro id' hgiven
      rw [← Option.some.inj (hfound.symm.trans hgiven)]
      exact ⟨hid id, rfl⟩
    · intro hnone
      rw [hfound] at hnone
      contradiction
    · have hblank := (Option.filter_eq_some_iff.mp hfilter).2
      rwa [Bool.not_eq_true'] at hblank

end Ids

/-- A record gets its identifier unless something that is no hash stands on the way to the
alternative key. -/
theorem getsId_iff (level : LogLevel) {cfg : GenIdConfig}
    (hpath : cfg.altKeys.head? ≠ some cfg.hashIdKey)
    (source : RandomSource) (drawn : Nat) (tag : Text) (record : Fields) :
    GetsId level cfg source drawn tag record ↔ (cfg.matches tag = true →
      if Ruby.isBlank cfg.altKey then cfg.givenId tag record = none
      else walkable (.obj record) cfg.altKeys = true) := by
  rw [getsId_result, filter_eq, GenIdConfig.lookedUp, textAt_store hpath, textAt, dig_eq]
  cases hmatches : cfg.matches tag with
  | false =>
    refine iff_of_true ⟨_, rfl, @hasId_store _ _ _ _ _ none ?_⟩ fun h => Bool.noConfusion h
    rw [GenIdConfig.givenId, hmatches]
    rfl
  | true =>
    have hgiven : cfg.givenId tag record =
        ((follow (.obj record) cfg.altKeys).bind Json.text?).filter fun id => !Ruby.isBlank id := by
      rw [GenIdConfig.givenId, hmatches, if_pos rfl]
    cases hblank : Ruby.isBlank cfg.altKey with
    | true =>
      rw [if_neg fun h => Bool.noConfusion h.2]
      constructor
      · rintro ⟨out, hout, hid⟩ -
        rw [← Except.ok.inj hout] at hid
        by_contra hsome
        obtain ⟨id, hsome⟩ := Option.ne_none_iff_exists'.mp hsome
        exact Nat.succ_ne_self drawn (hid.given id hsome).2
      · intro hnone
        exact ⟨_, rfl, @hasId_store _ _ _ _ _ none (hnone rfl)⟩
    | false =>
      rw [if_pos ⟨rfl, rfl⟩]
      cases hwalk : walkable (.obj record) cfg.altKeys with
      | false =>
        refine iff_of_false ?_ fun h => Bool.false_ne_true (h rfl)
        rintro ⟨out, hout, -⟩
        cases hout
      | true => exact iff_of_true ⟨_, rfl, hasId_store hgiven⟩ fun _ => rfl

def eventTag : Text := "kubernetes.journal.container._default_.kubernetes-event".toList

def eventConfig : GenIdConfig where
  hashIdKey := "viaq_msg_id".toList
  altKey := "kubernetes.event.metadata.uid".toList
  altTags := "kubernetes.var.log.containers.logging-eventrouter-*.**".toList ++ ' ' :: eventTag

def sampleSource (n : Nat) : Uuid := ⟨Nat.toDigits 10 n, Nat.toDigits_ne_nil⟩

def eventRecord : Fields :=
  [("kubernetes".toList, .obj [("event".toList, .obj [("metadata".toList,
    .obj [("uid".toList, .str "4a5b".toList)])])])]

theorem getsId_iff_event : GetsId .info eventConfig sampleSource 0 eventTag eventRecord ↔
    (eventConfig.matches eventTag = true →
      if Ruby.isBlank eventConfig.altKey then eventConfig.givenId eventTag eventRecord = none
      else walkable (.obj eventRecord) eventConfig.altKeys = true) :=
  getsId_iff .info (by decide +kernel) sampleSource 0 eventTag eventRecord

/-- A text where the names of a container are expected. -/
theorem not_getsId_text : ¬ GetsId .info eventConfig sampleSource 0 eventTag
    [("kubernetes".toList, .str "web".toList)] := by
  rw [getsId_result]
  rintro ⟨out, hout, -⟩
  have hmatches : eventConfig.matches eventTag = true := by decide +kernel
  have hblank : Ruby.isBlank eventConfig.altKey = false := by decide +kernel
  rw [filter_eq, GenIdConfig.lookedUp, if_pos ⟨hmatches, hblank⟩] at hout
  cases hout

end AggregatedLogging.Fluentd
