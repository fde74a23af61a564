import AggregatedLogging.Syslog.Framing

/-! Which tag the packet for a record gets: the text at the first of the keys, or else the
tag of the event. -/
namespace AggregatedLogging.Syslog

open Ruby
open Python (bind_ok)

section Selection

variable (lib : Library τ) (cfg : Config)

/-- The part of `send_to_syslog` that sets the tag. -/
def tagOf (e : Event τ) : Except RubyError Text := do
  let set ← recordTag lib cfg e.record
  settledTag lib cfg e.tag cfg.randomString set

def usableTag (record : Fields) : Json → Option Text
  | .str key => (((follow (.obj record) (splitDots key)).bind Json.text?).map cleanTag).filter
    fun t => t ≠ []
  | _ => none

/-- The tag as it is documented. -/
def selectedTag (tag : Text) (record : Fields) (keys : List Json) : Text :=
  (keys.findSome? (usableTag record)).getD (trimmed (cfg.strippedTag tag))

structure SelectsTag (e : Event τ) : Prop where
  sets : tagOf lib cfg e = .ok (selectedTag cfg e.tag e.record cfg.tagKey)
  packet : ∀ p, sendToSyslog lib cfg e = .ok p →
    p.tag = selectedTag cfg e.tag e.record cfg.tagKey
  ne_nil : selectedTag cfg e.tag e.record cfg.tagKey ≠ []

/-- Up to the first key at which the record has a text, the keys are paths through hashes;
that text is a tag, and not the one that was drawn.  Without one the tag of the event is
one that the packet accepts. -/
def TagsRead (tag : Text) (record : Fields) : List Json → Prop
  | [] => FallbackFits lib cfg tag
  | key :: keys => ∃ s, key = .str s ∧ walkable (.obj record) (splitDots s) = true ∧
      match follow (.obj record) (splitDots s) with
      | some (.str t) => lib.acceptsTag (cleanTag t) = true ∧
        (cleanTag t = cfg.randomString → trimmed (cfg.strippedTag tag) = cfg.randomString)
      | _ => TagsRead tag record keys

end Selection

section Read

variable {lib : Library τ} {cfg : Config}

theorem selectedTag_cons (tag : Text) (record : Fields) (key : Json) (keys : List Json) :
    selectedTag cfg tag record (key :: keys) =
      (usableTag record key).getD (selectedTag cfg tag record keys) := by
  rw [selectedTag, List.findSome?_cons, selectedTag]
  cases usableTag record key <;> rfl

theorem found_selected (hlib : lib.ChecksTags) {tag t later : Text} :
    (∃ found, (do return some (← accepted lib.acceptsTag (cleanTag t))) = Except.ok found ∧
      settledTag lib cfg tag cfg.randomString (found.getD cfg.randomString) =
        .ok ((((some t).map cleanTag).filter fun t => t ≠ []).getD later)) ↔
      lib.acceptsTag (cleanTag t) = true ∧
        (cleanTag t = cfg.randomString → trimmed (cfg.strippedTag tag) = cfg.randomString) := by
  cases haccepts : lib.acceptsTag (cleanTag t) with
  | false => simp [accepted, haccepts, bind, Except.bind]
  | true =>
    have hne : cleanTag t ≠ [] := ((hlib _).mp haccepts).1
    have husable : ((some t).map cleanTag).filter (fun t => t ≠ []) = some (cleanTag t) := by
      rw [Option.map_some, Option.filter_some, if_pos (decide_eq_true hne)]
    rw [husable, Option.getD_some]
    simp only [accepted, haccepts, if_true, bind, Except.bind, pure, Except.pure, settledTag]
    by_cases hrandom : cleanTag t = cfg.randomString
    · rw [hrandom]
      constructor
      · rintro ⟨found, hfound, h⟩
        rw [← Except.ok.inj hfound, Option.getD_some, if_pos rfl] at h
        exact ⟨trivial, fun _ => (accepted_ok.mp h).2.symm⟩
      · intro h
        refine ⟨some cfg.randomString, rfl, ?_⟩
        rw [Option.getD_some, if_pos rfl, fallbackTag, h.2 rfl]
        exact accepted_ok.mpr ⟨cfg.accepts_random hlib, rfl⟩
    · simp [hrandom]

theorem tagFromKeys_selected (hlib : lib.ChecksTags) {tag : Text} {record : Fields}
    (keys : List Json) :
    (∃ found, tagFromKeys lib record keys = .ok found ∧
      settledTag lib cfg tag cfg.randomString (found.getD cfg.randomString) =
        .ok (selectedTag cfg tag record keys)) ↔ TagsRead lib cfg tag record keys := by
  induction keys with
  | nil =>
    rw [TagsRead, FallbackFits]
    constructor
    · rintro ⟨found, hfound, h⟩
      rw [← Except.ok.inj hfound, Option.getD_none, settledTag, if_pos rfl] at h
      exact (accepted_ok.mp h).1
    · intro h
      refine ⟨none, rfl, ?_⟩
      rw [Option.getD_none, settledTag, if_pos rfl]
      exact accepted_ok.mpr ⟨h, rfl⟩
  | cons key keys ih =>
    rw [TagsRead, selectedTag_cons]
    cases key with
    | str s =>
      rw [tagFromKeys, dig_eq, usableTag]
      cases hwalk : walkable (.obj record) (splitDots s) with
      | false => simp [bind, Except.bind, hwalk]
      | true =>
        simp only [if_true, Json.str.injEq, exists_eq_left', hwalk, true_and]
        cases hfollow : follow (.obj record) (splitDots s) with
        | none => exact ih
        | some v =>
          cases v with
          | str t => exact found_selected hlib
          | _ => exact ih
    | _ => simp [tagFromKeys]

theorem tagOf_selected (hlib : lib.ChecksTags) {e : Event τ} :
    tagOf lib cfg e = .ok (selectedTag cfg e.tag e.record
        (if e.record.isEmpty then [] else cfg.tagKey)) ↔
      TagsRead lib cfg e.tag e.record (if e.record.isEmpty then [] else cfg.tagKey) := by
  have hrandom : accepted lib.acceptsTag cfg.randomString = .ok cfg.randomString :=
    accepted_ok.mpr ⟨cfg.accepts_random hlib, rfl⟩
  rw [← tagFromKeys_selected hlib, tagOf, recordTag, hrandom]
  simp only [bind, Except.bind, pure, Except.pure]
  cases tagFromKeys lib e.record (if e.record.isEmpty then [] else cfg.tagKey) with
  | error err => simp
  | ok found => simp

theorem usableTag_empty (key : Json) : usableTag [] key = none := by
  cases key with
  | str s =>
    rw [usableTag]
    cases splitDots s with
    | nil => rfl
    | cons k ks => rfl
  | _ => rfl

theorem selectedTag_empty (tag : Text) (keys : List Json) :
    selectedTag cfg tag [] keys = selectedTag cfg tag [] [] := by
  induction keys with
  | nil => rfl
  | cons key keys ih => rw [selectedTag_cons, usableTag_empty, Option.getD_none, ih]

theorem selectedTag_keys (tag : Text) (record : Fields) (keys : List Json) :
    selectedTag cfg tag record (if record.isEmpty then [] else keys) =
      selectedTag cfg tag record keys := by
  cases record with
  | nil => exact (selectedTag_empty tag keys).symm
  | cons field record => rfl

theorem sendToSyslog_tag {e : Event τ} {p : Packet τ} (h : sendToSyslog lib cfg e = .ok p) :
    tagOf lib cfg e = .ok p.tag := by
  obtain ⟨header, -, h⟩ := bind_ok.mp h
  obtain ⟨time, -, h⟩ := bind_ok.mp h
  obtain ⟨set, hset, h⟩ := bind_ok.mp h
  obtain ⟨tag, htag, h⟩ := bind_ok.mp h
  obtain ⟨content, -, h⟩ := bind_ok.mp h
  rw [← Except.ok.inj h]
  exact bind_ok.mpr ⟨set, hset, htag⟩

theorem tagOf_accepts {e : Event τ} {t : Text} (h : tagOf lib cfg e = .ok t) :
    lib.acceptsTag t = true := by
  obtain ⟨set, hset, h⟩ := bind_ok.mp h
  exact settledTag_accepts (recordTag_accepts hset) h

/-- The tag is the documented one exactly for the records that the keys allow for. -/
theorem selectsTag_iff (hlib : lib.ChecksTags) {e : Event τ} :
    SelectsTag lib cfg e ↔
      TagsRead lib cfg e.tag e.record (if e.record.isEmpty then [] else cfg.tagKey) := by
  rw [← tagOf_selected hlib, selectedTag_keys]
  constructor
  · intro h
    exact h.sets
  · intro h
    refine ⟨h, ?_, ((hlib _).mp (tagOf_accepts h)).1⟩
    intro p hp
    rw [sendToSyslog_tag hp] at h
    exact Except.ok.inj h

end Read

theorem selectsTag_iff_web :
    SelectsTag gem nodeConfig (webEvent "ready".toList webFields) ↔
      TagsRead gem nodeConfig "kubernetes.var.log.containers.web".toList
        (webEvent "ready".toList webFields).record nodeConfig.tagKey :=
  selectsTag_iff gem_checksTags

/-- A text where the second key has a hash. -/
theorem not_selectsTag_text :
    ¬ SelectsTag gem nodeConfig (webEvent "ready".toList [("systemd".toList, .str "off".toList)]) := by
  intro h
  have hsets := h.sets
  have hraises : tagOf gem nodeConfig (webEvent "ready".toList
      [("systemd".toList, .str "off".toList)]) = .error .noMethodError := rfl
  rw [hraises] at hsets
  contradiction

end AggregatedLogging.Syslog
