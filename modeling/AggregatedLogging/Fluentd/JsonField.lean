import AggregatedLogging.Ruby.Json
import AggregatedLogging.Ruby.Hash
import AggregatedLogging.Python.Except
import Mathlib.Data.List.Forall2

/-! The filter `parse_json_field`, which puts the members of a JSON text in a record into
the record itself.  `json` reads the hash of a text in braces; there is none when it
raises its `ParserError`. -/
namespace AggregatedLogging.Fluentd

open Ruby
open Python (mapM_ok exists_mapM_ok map_ok exists_map_ok)

variable {τ : Type}

structure JsonConfig where
  mergeJsonLog : Bool := true
  preserveJsonLog : Bool := true
  jsonFields : List Text := ["MESSAGE".toList, "log".toList]

section Filter

variable (json : Text → Option Fields) (cfg : JsonConfig)

def mergeField (key value : Text) (record : Fields) : Fields :=
  if (strip value).head? = some '{' ∧ (strip value).getLast? = some '}' then
    match json (strip value) with
    | none => record
    | some parsed =>
      if cfg.preserveJsonLog then merge parsed record
      else delete key (merge parsed record)
  else record

/-- Only the first of the keys that the record has is looked at.  Nothing but a text has
the method `strip`. -/
def doMergeJsonLog (record : Fields) : List Text → Except RubyError Fields
  | [] => .ok record
  | key :: keys =>
    match record.lookup key with
    | none => doMergeJsonLog record keys
    | some (.str value) => .ok (mergeField json cfg key value record)
    | some _ => .error .noMethodError

def filterStream (es : List (τ × Fields)) : Except RubyError (List (τ × Fields)) :=
  if cfg.mergeJsonLog then
    es.mapM fun e => (doMergeJsonLog json cfg e.2 cfg.jsonFields).map fun r => (e.1, r)
  else .ok es

end Filter

/-- The events are told apart by what stands outside the fields that are looked at. -/
def SameEvent (cfg : JsonConfig) (e o : τ × Fields) : Prop :=
  o.1 = e.1 ∧ ∀ key ∉ cfg.jsonFields, ∀ v, e.2.lookup key = some v → o.2.lookup key = some v

def KeepsEvents (json : Text → Option Fields) (cfg : JsonConfig) (es : List (τ × Fields)) :
    Prop :=
  ∃ out, filterStream json cfg es = .ok out ∧ List.Forall₂ (SameEvent cfg) es out

def firstField (record : Fields) (keys : List Text) : Option Json :=
  keys.findSome? fun key => record.lookup key

def objectOf (json : Text → Option Fields) : Json → Option Fields
  | .str s =>
    if (strip s).head? = some '{' ∧ (strip s).getLast? = some '}' then json (strip s) else none
  | _ => none

def withObject (cfg : JsonConfig) (key : Text) (record parsed : Fields) : Fields :=
  if cfg.preserveJsonLog then merge parsed record else delete key (merge parsed record)

section Lemmas

variable {json : Text → Option Fields} {cfg : JsonConfig} {record : Fields}

theorem SameEvent.refl (e : τ × Fields) : SameEvent cfg e e :=
  ⟨rfl, fun _ _ _ h => h⟩

theorem mergeField_eq (key value : Text) : mergeField json cfg key value record =
    ((objectOf json (.str value)).map (withObject cfg key record)).getD record := by
  rw [mergeField, objectOf]
  by_cases hbraces : (strip value).head? = some '{' ∧ (strip value).getLast? = some '}'
  · rw [if_pos hbraces, if_pos hbraces]
    cases json (strip value) <;> rfl
  · rw [if_neg hbraces, if_neg hbraces]
    rfl

theorem lookup_withObject (key k : Text) (parsed : Fields) :
    (withObject cfg key record parsed).lookup k =
      if k = key ∧ cfg.preserveJsonLog = false then none
      else (record.lookup k).or (parsed.lookup k) := by
  rw [withObject]
  cases cfg.preserveJsonLog with
  | true => rw [if_pos rfl, lookup_merge, if_neg fun h => Bool.noConfusion h.2]
  | false =>
    rw [if_neg Bool.false_ne_true, lookup_delete, lookup_merge]
    by_cases hk : k = key
    · rw [if_pos hk, if_pos ⟨hk, rfl⟩]
    · rw [if_neg hk, if_neg fun h => hk h.1]

theorem lookup_mergeField {key value k : Text} {v : Json} (hk : k ≠ key)
    (h : record.lookup k = some v) :
    (mergeField json cfg key value record).lookup k = some v := by
  rw [mergeField_eq]
  cases objectOf json (.str value) with
  | none => exact h
  | some parsed =>
    rw [Option.map_some, Option.getD_some, lookup_withObject, if_neg fun hkey => hk hkey.1, h,
      Option.some_or]

theorem lookup_doMergeJsonLog {keys : List Text} {out : Fields}
    (hout : doMergeJsonLog json cfg record keys = .ok out) {k : Text} (hk : k ∉ keys) {v : Json}
    (h : record.lookup k = some v) : out.lookup k = some v := by
  induction keys with
  | nil => rwa [← Except.ok.inj hout]
  | cons key keys ih =>
    rw [List.mem_cons, not_or] at hk
    rw [doMergeJsonLog] at hout
    cases hfield : record.lookup key with
    | none =>
      rw [hfield] at hout
      exact ih hout hk.2
    | some w =>
      rw [hfield] at hout
      cases w with
      | str value =>
        rw [← Except.ok.inj hout]
        exact lookup_mergeField hk.1 h
      | _ => cases hout

theorem doMergeJsonLog_ok {keys : List Text} :
    (∃ out, doMergeJsonLog json cfg record keys = .ok out) ↔
      ∀ v, firstField record keys = some v → ∃ s, v = .str s := by
  induction keys with
  | nil => exact iff_of_true ⟨record, rfl⟩ fun _ h => nomatch h
  | cons key keys ih =>
    rw [doMergeJsonLog, firstField, List.findSome?_cons]
    cases hfield : record.lookup key with
    | none => exact ih
    | some w =>
      cases w with
      | str value =>
        refine iff_of_true ⟨_, rfl⟩ ?_
        intro v hv
        exact ⟨value, (Option.some.inj hv).symm⟩
      | _ =>
        refine iff_of_false (fun ⟨_, h⟩ => nomatch h) ?_
        intro h
        obtain ⟨s, hs⟩ := h _ rfl
        cases hs

theorem sameEvent_of_ok {e o : τ × Fields}
    (h : (doMergeJsonLog json cfg e.2 cfg.jsonFields).map (fun r => (e.1, r)) = .ok o) :
    SameEvent cfg e o := by
  obtain ⟨out, hout, rfl⟩ := map_ok.mp h
  exact ⟨rfl, fun _ hk _ hv => lookup_doMergeJsonLog hout hk hv⟩

theorem filterStream_same {es out : List (τ × Fields)} (h : filterStream json cfg es = .ok out) :
    List.Forall₂ (SameEvent cfg) es out := by
  unfold filterStream at h
  split at h
  · exact (mapM_ok.mp h).imp fun _ _ => sameEvent_of_ok
  · rw [← Except.ok.inj h]
    exact List.forall₂_same.mpr fun e _ => SameEvent.refl e

theorem filterStream_ok {es : List (τ × Fields)} :
    (∃ out, filterStream json cfg es = .ok out) ↔ cfg.mergeJsonLog = false ∨
      ∀ e ∈ es, ∀ v, firstField e.2 cfg.jsonFields = some v → ∃ s, v = .str s := by
  unfold filterStream
  cases cfg.mergeJsonLog with
  | false => exact iff_of_true ⟨es, rfl⟩ (.inl rfl)
  | true =>
    rw [if_pos rfl, exists_mapM_ok, or_iff_right Bool.noConfusion]
    refine forall₂_congr fun e _ => ?_
    rw [← doMergeJsonLog_ok, exists_map_ok]

end Lemmas

/-- One record whose field holds no text takes the whole stream with it. -/
theorem keepsEvents_iff (json : Text → Option Fields) (cfg : JsonConfig)
    (es : List (τ × Fields)) :
    KeepsEvents json cfg es ↔ cfg.mergeJsonLog = false ∨
      ∀ e ∈ es, ∀ v, firstField e.2 cfg.jsonFields = some v → ∃ s, v = .str s := by
  rw [← filterStream_ok]
  exact exists_congr fun out => and_iff_left_of_imp filterStream_same

/-- A record without a value under `log` is lost together with its neighbour. -/
theorem not_keepsEvents_null : ¬ KeepsEvents (fun _ => none) {}
    [(1, [("log".toList, .str "started".toList)]), (2, [("log".toList, .null)])] := by
  rintro ⟨out, hout, -⟩
  cases hout

/-- The members of `parsed` stand in the record next to its own fields. -/
structure Adds (cfg : JsonConfig) (key : Text) (record parsed out : Fields) : Prop where
  keys : ∀ k, (out.lookup k).isSome = true ↔
    ((record.lookup k).isSome = true ∨ (parsed.lookup k).isSome = true) ∧
      (k = key → cfg.preserveJsonLog = true)
  kept : ∀ k v, record.lookup k = some v → (k = key → cfg.preserveJsonLog = true) →
    out.lookup k = some v
  added : ∀ k, record.lookup k = none → out.lookup k = parsed.lookup k
  once : (record.map Prod.fst).Nodup → (parsed.map Prod.fst).Nodup → (out.map Prod.fst).Nodup

/-- Only the first of the keys that the record has can add something, and what it adds are
the members of its text. -/
inductive OnlyAdds (json : Text → Option Fields) (cfg : JsonConfig) (record : Fields)
    (keys : List Text) : Fields → Prop where
  | absent (h : ∀ key ∈ keys, record.lookup key = none) : OnlyAdds json cfg record keys record
  | other (before after : List Text) (key : Text) (value : Json)
      (hsplit : keys = before ++ key :: after) (hbefore : ∀ k ∈ before, record.lookup k = none)
      (hvalue : record.lookup key = some value) (hobject : objectOf json value = none) :
      OnlyAdds json cfg record keys record
  | object (before after : List Text) (key : Text) (value : Json) (parsed out : Fields)
      (hsplit : keys = before ++ key :: after) (hbefore : ∀ k ∈ before, record.lookup k = none)
      (hvalue : record.lookup key = some value) (hobject : objectOf json value = some parsed)
      (hadds : Adds cfg key record parsed out) : OnlyAdds json cfg record keys out

section OnlyAdds

variable {json : Text → Option Fields} {cfg : JsonConfig} {record : Fields}

/-- The record has the key, so that a member of that name is never seen. -/
theorem adds_withObject {key : Text} {value : Json} (hvalue : record.lookup key = some value)
    (parsed : Fields) : Adds cfg key record parsed (withObject cfg key record parsed) where
  keys k := by
    rw [lookup_withObject]
    cases hpreserve : cfg.preserveJsonLog with
    | true => simp
    | false =>
      by_cases hk : k = key
      · simp [hk]
      · simp [hk]
  kept k v hv hk := by
    rw [lookup_withObject, if_neg, hv, Option.some_or]
    rintro ⟨hkey, hpreserve⟩
    rw [hk hkey] at hpreserve
    contradiction
  added k hk := by
    have hne : k ≠ key := by
      rintro rfl
      rw [hvalue] at hk
      contradiction
    rw [lookup_withObject, if_neg fun h => hne h.1, hk, Option.none_or]
  once hrecord hparsed := by
    rw [withObject]
    split
    · exact merge_nodup hparsed hrecord
    · exact delete_nodup key (merge_nodup hparsed hrecord)

theorem OnlyAdds.cons {key : Text} {keys : List Text} {out : Fields}
    (hkey : record.lookup key = none) (h : OnlyAdds json cfg record keys out) :
    OnlyAdds json cfg record (key :: keys) out := by
  cases h with
  | absent h => exact .absent (List.forall_mem_cons.mpr ⟨hkey, h⟩)
  | other before after k value hsplit hbefore hvalue hobject =>
    exact .other (key :: before) after k value (congrArg (key :: ·) hsplit)
      (List.forall_mem_cons.mpr ⟨hkey, hbefore⟩) hvalue hobject
  | object before after k value parsed out hsplit hbefore hvalue hobject hadds =>
    exact .object (key :: before) after k value parsed out (congrArg (key :: ·) hsplit)
      (List.forall_mem_cons.mpr ⟨hkey, hbefore⟩) hvalue hobject hadds

end OnlyAdds

/-- Whatever the texts of a record say, its own fields stay as they are. -/
theorem doMergeJsonLog_onlyAdds {json : Text → Option Fields} {cfg : JsonConfig}
    {record out : Fields} {keys : List Text}
    (h : doMergeJsonLog json cfg record keys = .ok out) : OnlyAdds json cfg record keys out := by
  induction keys with
  | nil =>
    rw [← Except.ok.inj h]
    exact .absent (List.forall_mem_nil _)
  | cons key keys ih =>
    rw [doMergeJsonLog] at h
    cases hfield : record.lookup key with
    | none =>
      rw [hfield] at h
      exact (ih h).cons hfield
    | some w =>
      rw [hfield] at h
      cases w with
      | str value =>
        rw [← Except.ok.inj h, mergeField_eq]
        cases hobject : objectOf json (.str value) with
        | none => exact .other [] keys key _ rfl (List.forall_mem_nil _) hfield hobject
        | some parsed =>
          exact .object [] keys key _ parsed _ rfl (List.forall_mem_nil _) hfield hobject
            (adds_withObject hfield parsed)
      | _ => cases h

/-- A text that names a host does not change the one of the record. -/
theorem doMergeJsonLog_onlyAdds_host :
    OnlyAdds (fun _ => some [("hostname".toList, .str "forged".toList), ("level".toList, .int 3)])
      { preserveJsonLog := false }
      [("hostname".toList, .str "node-1".toList),
        ("log".toList, .str " \x7b\"hostname\":\"forged\",\"level\":3\x7d\n".toList)]
      ["MESSAGE".toList, "log".toList]
      [("hostname".toList, .str "node-1".toList), ("level".toList, .int 3)] :=
  doMergeJsonLog_onlyAdds rfl

end AggregatedLogging.Fluentd
