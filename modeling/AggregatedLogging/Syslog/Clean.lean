import AggregatedLogging.Syslog.Packet

/-! The records that go through the syslog outputs without an exception. -/
namespace AggregatedLogging.Syslog

open Ruby
open Python (exists_bind_ok exists_mapM_ok bind_ok)

section Fits

variable (lib : Library τ) (cfg : Config)

def FacilityFits (record : Fields) : Prop :=
  if cfg.useRecord.isSome then
    walkable (.obj record) syslogFacility = true ∧
      match follow (.obj record) syslogFacility with
      | some value => value.isNumeric = true ∧
        ∀ n, value.toI = .ok n → lib.acceptsFacility (journalFacility cfg value n) = true
      | none => lib.acceptsFacility (plainFacility cfg record) = true
  else lib.acceptsFacility (orNil cfg.facility) = true

def TimeFits (record : Fields) : Prop :=
  ∀ v, record.lookup "time".toList = some v → v.truthy = true →
    ∃ s, v = .str s ∧ (lib.parseTime s).isSome = true

def FallbackFits (tag : Text) : Prop := lib.acceptsTag (trimmed (cfg.strippedTag tag)) = true

/-- Up to the first key at which the record has a text, the keys are paths
through hashes; that text is a tag.  Without one the tag of the event is used. -/
def TagsFit (tag : Text) (record : Fields) : List Json → Prop
  | [] => FallbackFits lib cfg tag
  | key :: keys => ∃ s, key = .str s ∧ walkable (.obj record) (splitDots s) = true ∧
      match follow (.obj record) (splitDots s) with
      | some (.str t) => lib.acceptsTag (cleanTag t) = true ∧
        (cleanTag t = cfg.randomString → FallbackFits lib cfg tag)
      | _ => TagsFit tag record keys

def ContentFits (record : Fields) : Prop :=
  ∀ payload kubernetes, cfg.useRecord.isSome = true → record.lookup cfg.payload = some payload →
    payload.truthy = true → record.lookup "kubernetes".toList = some kubernetes →
    (∃ s, payload = .str s) ∧ ∃ fields, kubernetes = .obj fields ∧
      ∀ key ∈ kubernetesKeys, ∀ v, fields.lookup key = some v → ∃ s, v = .str s

structure Clean (e : Event τ) : Prop where
  hostname : lib.acceptsHostname (hostnameOf cfg e.record) = true
  severity : lib.acceptsSeverity (severityOf cfg e.record) = true
  facility : FacilityFits lib cfg e.record
  time : TimeFits lib e.record
  tag : TagsFit lib cfg e.tag e.record (if e.record.isEmpty then [] else cfg.tagKey)
  content : ContentFits cfg e.record

end Fits

theorem accepted_ok {accepts : α → Bool} {v w : α} :
    accepted accepts v = .ok w ↔ accepts v = true ∧ w = v := by
  unfold accepted
  split
  · rename_i h
    simp [h, eq_comm]
  · rename_i h
    simp [h]

theorem exists_accepted_bind {α β : Type} {accepts : α → Bool} {v : α} {f : α → Except RubyError β} :
    (∃ b, (accepted accepts v >>= f) = .ok b) ↔ accepts v = true ∧ ∃ b, f v = .ok b := by
  rw [exists_bind_ok]
  simp only [accepted_ok]
  constructor
  · rintro ⟨_, ⟨h, rfl⟩, hf⟩
    exact ⟨h, hf⟩
  · rintro ⟨h, hf⟩
    exact ⟨v, ⟨h, rfl⟩, hf⟩

theorem exists_accepted {accepts : α → Bool} {v : α} :
    (∃ w, accepted accepts v = .ok w) ↔ accepts v = true := by
  simp [accepted_ok]

theorem Config.accepts_random {lib : Library τ} (hlib : lib.ChecksTags) (cfg : Config) :
    lib.acceptsTag cfg.randomString = true := by
  apply (hlib _).mpr
  refine ⟨?_, cfg.random_length.le, ?_⟩
  · intro hnil
    have hlength := cfg.random_length
    rw [hnil] at hlength
    contradiction
  · apply List.all_eq_true.mpr
    intro c hc
    have hhex := List.all_eq_true.mp cfg.random_hex c hc
    simp only [isHexDigit, Char.isDigit, Bool.or_eq_true, Bool.and_eq_true, decide_eq_true_eq,
      Char.le_def, UInt32.le_iff_toNat_le, ge_iff_le] at hhex
    simp only [isGraph, Bool.and_eq_true, decide_eq_true_eq, Char.le_def, UInt32.le_iff_toNat_le]
    rcases hhex with ⟨hlow, hhigh⟩ | ⟨hlow, hhigh⟩
    · change 48 ≤ c.val.toNat at hlow
      change c.val.toNat ≤ 57 at hhigh
      change 33 ≤ c.val.toNat ∧ c.val.toNat ≤ 126
      omega
    · change 97 ≤ c.val.toNat at hlow
      change c.val.toNat ≤ 102 at hhigh
      change 33 ≤ c.val.toNat ∧ c.val.toNat ≤ 126
      omega

section Succeeds

variable {lib : Library τ} {cfg : Config}

theorem exists_recordFacility {record : Fields} :
    (∃ v, recordFacility cfg record = .ok v ∧ lib.acceptsFacility v = true) ↔
      walkable (.obj record) syslogFacility = true ∧
        match follow (.obj record) syslogFacility with
        | some value => value.isNumeric = true ∧
          ∀ n, value.toI = .ok n → lib.acceptsFacility (journalFacility cfg value n) = true
        | none => lib.acceptsFacility (plainFacility cfg record) = true := by
  rw [recordFacility, dig_eq]
  cases hwalk : walkable (.obj record) syslogFacility with
  | false =>
    simp [bind, Except.bind]
  | true =>
    cases hfollow : follow (.obj record) syslogFacility with
    | none => simp [bind, Except.bind, pure, Except.pure]
    | some value =>
      cases hn : value.toI with
      | error e =>
        have hnumeric : value.isNumeric ≠ true := by
          rw [ne_eq, ← Json.toI_ok, hn]
          simp
        simp [bind, Except.bind, hn, hnumeric]
      | ok n =>
        have hnumeric : value.isNumeric = true := Json.toI_ok.mp ⟨n, hn⟩
        simp [bind, Except.bind, pure, Except.pure, hn, hnumeric]

theorem exists_setHeader {record : Fields} :
    (∃ h, setHeader lib cfg record = .ok h) ↔
      lib.acceptsHostname (hostnameOf cfg record) = true ∧
        lib.acceptsSeverity (severityOf cfg record) = true ∧ FacilityFits lib cfg record := by
  unfold setHeader FacilityFits
  have hpure (h : Json × Json × Json) : ∃ b, (pure h : Except RubyError _) = .ok b := ⟨h, rfl⟩
  split
  · rw [exists_accepted_bind, exists_accepted_bind, exists_bind_ok, ← exists_recordFacility]
    simp only [exists_accepted_bind, hpure, and_true]
  · rw [exists_accepted_bind, exists_accepted_bind, exists_accepted_bind]
    simp only [hpure, and_true]
    rw [and_comm (a := lib.acceptsFacility _ = true)]

theorem exists_timeOf {e : Event τ} : (∃ t, timeOf lib e = .ok t) ↔ TimeFits lib e.record := by
  unfold timeOf TimeFits
  cases htime : e.record.lookup "time".toList with
  | none => simp
  | some v =>
    cases htruthy : v.truthy with
    | false => simp [Option.filter, htruthy]
    | true =>
      cases v with
      | str s =>
        cases hparse : lib.parseTime s with
        | none => simp [Option.filter, htruthy, hparse]
        | some t => simp [Option.filter, htruthy, hparse]
      | _ => simp_all [Option.filter]

theorem exists_fallbackTag {tag : Text} :
    (∃ t, fallbackTag lib cfg tag = .ok t) ↔ FallbackFits lib cfg tag := exists_accepted

theorem exists_settledTag {tag set : Text} :
    (∃ t, settledTag lib cfg tag cfg.randomString set = .ok t) ↔
      (set = cfg.randomString → FallbackFits lib cfg tag) := by
  unfold settledTag
  split
  · rename_i hset
    rw [exists_fallbackTag]
    simp [hset]
  · rename_i hset
    simp [hset]

theorem exists_tagFromKeys {tag : Text} {record : Fields} (keys : List Json) :
    (∃ found, tagFromKeys lib record keys = .ok found ∧ ∃ t, settledTag lib cfg tag
      cfg.randomString (found.getD cfg.randomString) = .ok t) ↔ TagsFit lib cfg tag record keys := by
  induction keys with
  | nil =>
    rw [TagsFit, ← exists_fallbackTag]
    simp [tagFromKeys, settledTag]
  | cons key keys ih =>
    rw [TagsFit]
    cases key with
    | str s =>
      rw [tagFromKeys, dig_eq]
      cases hwalk : walkable (.obj record) (splitDots s) with
      | false => simp [bind, Except.bind, hwalk]
      | true =>
        simp only [if_true, Json.str.injEq, exists_eq_left', hwalk, true_and]
        cases hfollow : follow (.obj record) (splitDots s) with
        | none => exact ih
        | some v =>
          cases v with
          | str t =>
            have hsettled := @exists_settledTag _ lib cfg tag (cleanTag t)
            simp only [← hsettled, bind, Except.bind]
            cases haccepts : lib.acceptsTag (cleanTag t) with
            | false => simp [accepted, haccepts]
            | true => simp [accepted, haccepts, pure, Except.pure]
          | _ => exact ih
    | _ => simp [tagFromKeys]

theorem exists_recordTag (hlib : lib.ChecksTags) {tag : Text} {record : Fields} :
    (∃ set, recordTag lib cfg record = .ok set ∧
      ∃ t, settledTag lib cfg tag cfg.randomString set = .ok t) ↔
      TagsFit lib cfg tag record (if record.isEmpty then [] else cfg.tagKey) := by
  have hrandom : accepted lib.acceptsTag cfg.randomString = .ok cfg.randomString :=
    accepted_ok.mpr ⟨cfg.accepts_random hlib, rfl⟩
  rw [← exists_tagFromKeys, recordTag, hrandom]
  simp only [bind, Except.bind, pure, Except.pure]
  cases tagFromKeys lib record (if record.isEmpty then [] else cfg.tagKey) with
  | error e => simp
  | ok found => simp

theorem exists_kubernetesField {kubernetes : Fields} {key : Text} :
    (∃ t, kubernetesField kubernetes key = .ok t) ↔
      ∀ v, kubernetes.lookup key = some v → ∃ s, v = .str s := by
  unfold kubernetesField
  cases kubernetes.lookup key with
  | none => simp
  | some v => cases v <;> simp

theorem exists_namedMessage {names : Text} {payload : Option Json} :
    (∃ c, namedMessage cfg names payload = .ok c) ↔ ∃ s, payload = some (.str s) := by
  cases payload with
  | none => simp [namedMessage]
  | some v => cases v <;> simp [namedMessage]

theorem exists_contentOf {record : Fields} :
    (∃ c, contentOf cfg record = .ok c) ↔ ContentFits cfg record := by
  unfold contentOf ContentFits
  cases hpayload : record.lookup cfg.payload with
  | none => simp
  | some payload =>
    by_cases huse : cfg.useRecord.isSome = true ∧ payload.truthy = true
    · cases hkubernetes : record.lookup "kubernetes".toList with
      | none => simp
      | some kubernetes =>
        cases kubernetes with
        | obj fields =>
          have hfields := @exists_mapM_ok RubyError _ _ kubernetesKeys (kubernetesField fields)
          simp only [exists_kubernetesField] at hfields
          simp only [Option.any_some, huse, and_self, if_true, exists_bind_ok]
          simp only [exists_namedMessage, exists_and_right, hfields]
          constructor
          · intro h p k _ hp _ hk
            rw [← Option.some.inj hp, ← Option.some.inj hk]
            obtain ⟨hfields, s, hs⟩ := h
            exact ⟨⟨s, Option.some.inj hs⟩, fields, rfl, hfields⟩
          · intro h
            obtain ⟨⟨s, hs⟩, fields', hobj, hfields'⟩ := h payload _ trivial rfl huse.2 rfl
            rw [Json.obj.inj hobj]
            exact ⟨hfields', s, congrArg some hs⟩
        | _ => simp [huse]
    · have hnone : (if cfg.useRecord.isSome = true ∧ (some payload).any Json.truthy = true then
          record.lookup "kubernetes".toList else none) = none := if_neg huse
      simp only [hnone]
      refine iff_of_true ⟨_, rfl⟩ ?_
      intro p _ huseRecord hp htruthy
      rw [← Option.some.inj hp] at htruthy
      exact absurd ⟨huseRecord, htruthy⟩ huse

theorem exists_sendToSyslog (hlib : lib.ChecksTags) {e : Event τ} :
    (∃ p, sendToSyslog lib cfg e = .ok p) ↔ Clean lib cfg e := by
  rw [sendToSyslog, exists_bind_ok]
  simp only [exists_bind_ok]
  have hpure (p : Packet τ) : ∃ b, (pure p : Except RubyError _) = .ok b := ⟨p, rfl⟩
  simp only [hpure, and_true, exists_and_right, ← and_assoc, exists_recordTag hlib,
    exists_setHeader, exists_timeOf, exists_contentOf]
  constructor
  · rintro ⟨⟨⟨⟨⟨hhostname, hseverity⟩, hfacility⟩, htime⟩, htag⟩, hcontent⟩
    exact ⟨hhostname, hseverity, hfacility, htime, htag, hcontent⟩
  · intro h
    exact ⟨⟨⟨⟨⟨h.hostname, h.severity⟩, h.facility⟩, h.time⟩, h.tag⟩, h.content⟩

/-- A chunk is written without an exception exactly when each of its records is
one that the code allows for. -/
theorem write_succeeds_iff (lib : Library τ) (hlib : lib.ChecksTags) (cfg : Config)
    (chunk : List (Event τ)) :
    (∃ sent, write lib cfg chunk = .ok sent) ↔ ∀ e ∈ chunk, Clean lib cfg e := by
  rw [write, exists_mapM_ok]
  refine forall₂_congr fun e _ => ?_
  rw [← exists_sendToSyslog hlib]
  cases sendToSyslog lib cfg e <;> simp [Except.map]

end Succeeds

def nodeConfig : Config where
  hostname := "node-1".toList
  facility := some "local0".toList
  severity := some "info".toList
  useRecord := some "true".toList
  tagKey := [.str "ident".toList, .str "systemd.u.SYSLOG_IDENTIFIER".toList]
  randomString := "0123456789abcdef0123456789abcdef".toList
  random_length := by decide
  random_hex := by decide

def newYear : Timestamp := ⟨"Jan  1 00:00:00".toList, by decide⟩

def webEvent (message : Text) (fields : Fields) : Event Timestamp where
  tag := "kubernetes.var.log.containers.web".toList
  now := newYear
  record := ("message".toList, .str message) :: fields

def webFields : Fields :=
  [("kubernetes".toList, .obj [("namespace_name".toList, .str "web".toList)]),
    ("ident".toList, .str "httpd [1]".toList)]

theorem write_succeeds_web :
    (∃ sent, write gem nodeConfig [webEvent "ready".toList webFields] = .ok sent) ↔
      ∀ e ∈ [webEvent "ready".toList webFields], Clean gem nodeConfig e :=
  write_succeeds_iff gem gem_checksTags nodeConfig _

/-- A level that no severity has is raised for behind a record that was sent. -/
theorem write_raises_unknown :
    write gem nodeConfig [webEvent "ready".toList webFields,
      webEvent "lost".toList [("level".toList, .str "unknown".toList)]] = .error .argumentError := rfl

end AggregatedLogging.Syslog
