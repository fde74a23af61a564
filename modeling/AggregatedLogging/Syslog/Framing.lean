import AggregatedLogging.Syslog.Clean
import AggregatedLogging.Lines
import Mathlib.Algebra.Ring.Nat

/-! The packets on the socket, one line each. -/
namespace AggregatedLogging.Syslog

open Ruby
open Text (byteSize)
open Python (bind_ok mapM_ok mapM_eq_map mapM_map forall_mapM_ok exists_mapM_ok)

theorem fits_subset {c : Char} {room : Nat} {s : Text} (h : c ∈ fits room s) : c ∈ s := by
  induction s generalizing room with
  | nil => contradiction
  | cons d s ih =>
    rw [fits] at h
    split at h
    · rcases List.mem_cons.mp h with rfl | h
      · exact List.mem_cons_self
      · exact List.mem_cons_of_mem d (ih h)
    · contradiction

theorem fits_zero (s : Text) : fits 0 s = [] := by
  cases s with
  | nil => rfl
  | cons c s =>
    have hpos := Char.utf8Size_pos c
    rw [fits, if_neg (by omega)]

theorem fits_append (room : Nat) (front s : Text) :
    fits room (front ++ s) =
      if byteSize front ≤ room then front ++ fits (room - byteSize front) s else fits room front := by
  induction front generalizing room with
  | nil => simp [byteSize]
  | cons c front ih =>
    have hsize : byteSize (c :: front) = c.utf8Size + byteSize front := by simp [byteSize]
    rw [List.cons_append, fits, fits, hsize, ih]
    by_cases hc : c.utf8Size ≤ room
    · rw [if_pos hc, if_pos hc]
      by_cases hfront : byteSize front ≤ room - c.utf8Size
      · have hboth : c.utf8Size + byteSize front ≤ room := by omega
        rw [if_pos hfront, if_pos hboth, Nat.sub_add_eq, List.cons_append]
      · have hboth : ¬ c.utf8Size + byteSize front ≤ room := by omega
        rw [if_neg hfront, if_neg hboth]
    · have hboth : ¬ c.utf8Size + byteSize front ≤ room := by omega
      rw [if_neg hc, if_neg hc, if_neg hboth]

/-- What is not in the front is shown only in the room that the front leaves. -/
theorem mem_fits_append {c : Char} {front : Text} (h : c ∉ front) (room : Nat) (s : Text) :
    c ∈ fits room (front ++ s) ↔ c ∈ fits (room - byteSize front) s := by
  rw [fits_append]
  split
  · rw [List.mem_append]
    exact or_iff_right h
  · rename_i hsize
    have hroom : room - byteSize front = 0 := by omega
    rw [hroom, fits_zero]
    exact iff_of_false (fun hc => h (fits_subset hc)) List.not_mem_nil

abbrev Header (τ : Type) := Json → Json → Json → τ → Text

/-- How the gem assembles a packet: header, tag and content in one text, of
which the first 1024 bytes are kept. -/
structure Library.Assembles (lib : Library τ) (header : Header τ) : Prop where
  assemble : ∀ p, lib.assemble p =
    fits maxSize (header p.hostname p.severity p.facility p.time ++ p.tag ++ [':', ' '] ++
      lib.toS p.content)
  header : ∀ hostname severity facility time, lib.acceptsHostname hostname = true →
    '\n' ∉ header hostname severity facility time
  text : ∀ s, lib.toS (.str s) = s

section Framing

variable (lib : Library τ) (header : Header τ) (cfg : Config)

def containerName (kubernetes : Fields) (key : Text) : Text :=
  match kubernetes.lookup key with
  | some (.str s) => key ++ '=' :: (s ++ [',', ' '])
  | _ => []

def messageText (record : Fields) : Text :=
  let payload := record.lookup cfg.payload
  match cfg.useRecord, payload.filter Json.truthy, record.lookup "kubernetes".toList with
  | some _, some (.str s), some (.obj kubernetes) =>
    kubernetesKeys.flatMap (containerName kubernetes) ++ cfg.payload ++ '=' :: s
  | _, _, _ => lib.toS (payload.getD .null)

/-- The facility of a record that has one which can be read. -/
def facilityOf (record : Fields) : Json :=
  if cfg.useRecord.isSome then
    match follow (.obj record) syslogFacility with
    | some value => journalFacility cfg value (value.toI.toOption.getD 0)
    | none => plainFacility cfg record
  else orNil cfg.facility

def sentTime (e : Event τ) : τ :=
  match (e.record.lookup "time".toList).filter Json.truthy with
  | some (.str s) => (lib.parseTime s).getD e.now
  | _ => e.now

def textAt (record : Fields) : Json → Option Text
  | .str key => (follow (.obj record) (splitDots key)).bind Json.text?
  | _ => none

/-- The first text at one of the keys, unless it is the drawn one. -/
def sentTag (e : Event τ) : Text :=
  let keys := if e.record.isEmpty then [] else cfg.tagKey
  let set := ((keys.findSome? (textAt e.record)).map cleanTag).getD cfg.randomString
  if set = cfg.randomString then trimmed (cfg.strippedTag e.tag) else set

def messageRoom (e : Event τ) : Nat :=
  maxSize - byteSize (header (hostnameOf cfg e.record) (severityOf cfg e.record)
    (facilityOf cfg e.record) (sentTime lib e) ++ sentTag cfg e ++ [':', ' '])

def OnOneLine (e : Event τ) : Prop :=
  '\n' ∉ fits (messageRoom lib header cfg e) (messageText lib cfg e.record)

/-- The lines on the socket are the packets, in the order of the chunk. -/
def Framed (packets : List (Packet τ)) (sent : List Text) : Prop :=
  Text.lines sent.flatten = packets.map fun p => lib.assemble p ++ ['\n']

end Framing

section Sent

variable {lib : Library τ} {header : Header τ} {cfg : Config}

theorem tagFromKeys_accepts {record : Fields} {keys : List Json} {t : Text}
    (h : tagFromKeys lib record keys = .ok (some t)) : lib.acceptsTag t = true := by
  induction keys with
  | nil =>
    rw [tagFromKeys] at h
    simp at h
  | cons key keys ih =>
    cases key with
    | str s =>
      rw [tagFromKeys] at h
      obtain ⟨found, -, h⟩ := bind_ok.mp h
      split at h
      · obtain ⟨u, hu, h⟩ := bind_ok.mp h
        obtain ⟨haccepts, rfl⟩ := accepted_ok.mp hu
        rw [← Option.some.inj (Except.ok.inj h)]
        exact haccepts
      · exact ih h
    | _ => simp [tagFromKeys] at h

theorem recordTag_accepts {record : Fields} {set : Text} (h : recordTag lib cfg record = .ok set) :
    lib.acceptsTag set = true := by
  obtain ⟨random, hrandom, h⟩ := bind_ok.mp h
  obtain ⟨found, hfound, h⟩ := bind_ok.mp h
  rw [← Except.ok.inj h]
  cases found with
  | none =>
    obtain ⟨haccepts, rfl⟩ := accepted_ok.mp hrandom
    exact haccepts
  | some t => exact tagFromKeys_accepts hfound

theorem settledTag_accepts {tag random set t : Text} (hset : lib.acceptsTag set = true)
    (h : settledTag lib cfg tag random set = .ok t) : lib.acceptsTag t = true := by
  unfold settledTag at h
  split at h
  · obtain ⟨haccepts, rfl⟩ := accepted_ok.mp h
    exact haccepts
  · rw [← Except.ok.inj h]
    exact hset

theorem recordFacility_ok {record : Fields} {v : Json} (h : recordFacility cfg record = .ok v)
    (huse : cfg.useRecord.isSome = true) : v = facilityOf cfg record := by
  obtain ⟨found, hfound, h⟩ := bind_ok.mp h
  rw [dig_eq] at hfound
  split at hfound
  · cases hfound
    rw [facilityOf, if_pos huse]
    cases hfollow : follow (.obj record) syslogFacility with
    | none =>
      rw [hfollow] at h
      exact (Except.ok.inj h).symm
    | some value =>
      rw [hfollow] at h
      obtain ⟨n, hn, h⟩ := bind_ok.mp h
      change v = journalFacility cfg value (value.toI.toOption.getD 0)
      rw [hn]
      exact (Except.ok.inj h).symm
  · contradiction

theorem setHeader_ok {record : Fields} {h : Json × Json × Json}
    (hset : setHeader lib cfg record = .ok h) : lib.acceptsHostname h.1 = true ∧
      h = (hostnameOf cfg record, severityOf cfg record, facilityOf cfg record) := by
  unfold setHeader at hset
  split at hset
  · rename_i huse
    obtain ⟨hostname, hhostname, hset⟩ := bind_ok.mp hset
    obtain ⟨haccepts, rfl⟩ := accepted_ok.mp hhostname
    obtain ⟨severity, hseverity, hset⟩ := bind_ok.mp hset
    obtain ⟨found, hfound, hset⟩ := bind_ok.mp hset
    obtain ⟨facility, hfacility, hset⟩ := bind_ok.mp hset
    rw [← Except.ok.inj hset, (accepted_ok.mp hseverity).2, (accepted_ok.mp hfacility).2,
      recordFacility_ok hfound huse]
    exact ⟨haccepts, rfl⟩
  · rename_i huse
    obtain ⟨hostname, hhostname, hset⟩ := bind_ok.mp hset
    obtain ⟨haccepts, rfl⟩ := accepted_ok.mp hhostname
    obtain ⟨facility, hfacility, hset⟩ := bind_ok.mp hset
    obtain ⟨severity, hseverity, hset⟩ := bind_ok.mp hset
    rw [← Except.ok.inj hset, (accepted_ok.mp hseverity).2, (accepted_ok.mp hfacility).2,
      facilityOf, if_neg huse]
    exact ⟨haccepts, rfl⟩

theorem timeOf_ok {e : Event τ} {t : τ} (h : timeOf lib e = .ok t) : t = sentTime lib e := by
  unfold timeOf at h
  unfold sentTime
  split at h
  · rename_i hnone
    rw [hnone]
    exact (Except.ok.inj h).symm
  · rename_i s hsome
    rw [hsome]
    change t = (lib.parseTime s).getD e.now
    cases hparse : lib.parseTime s with
    | none =>
      rw [hparse] at h
      contradiction
    | some u =>
      rw [hparse] at h
      exact (Except.ok.inj h).symm
  · contradiction

theorem tagFromKeys_ok {record : Fields} {keys : List Json} {found : Option Text}
    (h : tagFromKeys lib record keys = .ok found) :
    found = (keys.findSome? (textAt record)).map cleanTag := by
  induction keys with
  | nil => exact (Except.ok.inj h).symm
  | cons key keys ih =>
    cases key with
    | str s =>
      rw [tagFromKeys, dig_eq] at h
      obtain ⟨value, hvalue, h⟩ := bind_ok.mp h
      split at hvalue
      · cases hvalue
        rw [List.findSome?_cons, textAt]
        cases hfollow : follow (.obj record) (splitDots s) with
        | none =>
          rw [hfollow] at h
          exact ih h
        | some v =>
          rw [hfollow] at h
          cases v with
          | str t =>
            obtain ⟨u, hu, h⟩ := bind_ok.mp h
            obtain ⟨-, rfl⟩ := accepted_ok.mp hu
            exact (Except.ok.inj h).symm
          | _ => exact ih h
      · contradiction
    | _ => simp [tagFromKeys] at h

theorem sendToSyslog_parts {e : Event τ} {p : Packet τ} (h : sendToSyslog lib cfg e = .ok p) :
    lib.acceptsHostname p.hostname = true ∧ lib.acceptsTag p.tag = true ∧
      contentOf cfg e.record = .ok p.content := by
  obtain ⟨⟨hostname, severity, facility⟩, hheader, h⟩ := bind_ok.mp h
  obtain ⟨time, -, h⟩ := bind_ok.mp h
  obtain ⟨set, hset, h⟩ := bind_ok.mp h
  obtain ⟨tag, htag, h⟩ := bind_ok.mp h
  obtain ⟨content, hcontent, h⟩ := bind_ok.mp h
  obtain rfl := Except.ok.inj h
  exact ⟨(setHeader_ok hheader).1, settledTag_accepts (recordTag_accepts hset) htag, hcontent⟩

theorem sendToSyslog_fields {e : Event τ} {p : Packet τ} (h : sendToSyslog lib cfg e = .ok p) :
    p.hostname = hostnameOf cfg e.record ∧ p.severity = severityOf cfg e.record ∧
      p.facility = facilityOf cfg e.record ∧ p.time = sentTime lib e ∧ p.tag = sentTag cfg e := by
  obtain ⟨⟨hostname, severity, facility⟩, hheader, h⟩ := bind_ok.mp h
  obtain ⟨time, htime, h⟩ := bind_ok.mp h
  obtain ⟨set, hset, h⟩ := bind_ok.mp h
  obtain ⟨tag, htag, h⟩ := bind_ok.mp h
  obtain ⟨content, -, h⟩ := bind_ok.mp h
  obtain rfl := Except.ok.inj h
  obtain ⟨rfl, rfl, rfl⟩ := Prod.mk.inj (setHeader_ok hheader).2 |>.imp_right Prod.mk.inj
  obtain ⟨random, hrandom, hset⟩ := bind_ok.mp hset
  obtain ⟨found, hfound, hset⟩ := bind_ok.mp hset
  obtain ⟨-, rfl⟩ := accepted_ok.mp hrandom
  obtain rfl := Except.ok.inj hset
  refine ⟨rfl, rfl, rfl, timeOf_ok htime, ?_⟩
  have hset := tagFromKeys_ok hfound
  unfold settledTag at htag
  unfold sentTag
  split at htag
  · rename_i hsame
    rw [hset] at hsame
    exact (accepted_ok.mp htag).2.trans (if_pos hsame).symm
  · rename_i hother
    rw [hset] at hother htag
    exact (Except.ok.inj htag).symm.trans (if_neg hother).symm

theorem kubernetesField_eq {kubernetes : Fields} {key t : Text}
    (h : kubernetesField kubernetes key = .ok t) : t = containerName kubernetes key := by
  unfold kubernetesField at h
  unfold containerName
  split at h
  · rename_i hnone
    rw [hnone, ← Except.ok.inj h]
  · rename_i s hsome
    rw [hsome, ← Except.ok.inj h]
  · contradiction

theorem contentOf_text (htext : ∀ s, lib.toS (.str s) = s) {record : Fields} {c : Json}
    (h : contentOf cfg record = .ok c) : lib.toS c = messageText lib cfg record := by
  unfold contentOf at h
  unfold messageText
  cases huse : cfg.useRecord with
  | none =>
    simp only [huse, Option.isSome_none, Bool.false_eq_true, false_and, if_false] at h ⊢
    rw [Except.ok.inj h]
  | some value =>
    cases hpayload : record.lookup cfg.payload with
    | none =>
      simp only [hpayload, Option.any_none, Bool.false_eq_true, and_false, if_false] at h ⊢
      rw [← Except.ok.inj h]
      rfl
    | some payload =>
      cases htruthy : payload.truthy with
      | false =>
        simp only [hpayload, Option.any_some, htruthy, Bool.false_eq_true, and_false, if_false] at h
        simp only [Option.filter_some, htruthy, Bool.false_eq_true, if_false]
        rw [← Except.ok.inj h]
      | true =>
        simp only [huse, hpayload, Option.any_some, htruthy, Option.isSome_some, and_self,
          if_true] at h
        simp only [Option.filter_some, htruthy, if_true]
        cases hkubernetes : record.lookup "kubernetes".toList with
        | none =>
          rw [hkubernetes] at h
          rw [← Except.ok.inj h]
          cases payload <;> rfl
        | some k =>
          rw [hkubernetes] at h
          cases k with
          | obj kubernetes =>
            obtain ⟨texts, htexts, h⟩ := bind_ok.mp h
            have htexts := mapM_eq_map htexts fun _ _ => kubernetesField_eq
            cases payload with
            | str s =>
              rw [← Except.ok.inj h, htext, htexts]
              rfl
            | _ => simp [namedMessage] at h
          | _ => simp at h

theorem no_break_of_accepts (hlib : lib.ChecksTags) {t : Text} (h : lib.acceptsTag t = true) :
    '\n' ∉ t := by
  intro hmem
  have hgraph := List.all_eq_true.mp ((hlib t).mp h).2.2 _ hmem
  exact absurd hgraph (by decide)

theorem break_assembled (hlib : lib.ChecksTags) (hassembles : lib.Assembles header) {e : Event τ}
    {p : Packet τ} (h : sendToSyslog lib cfg e = .ok p) :
    '\n' ∈ lib.assemble p ↔
      '\n' ∈ fits (messageRoom lib header cfg e) (messageText lib cfg e.record) := by
  obtain ⟨hhostname, htag, hcontent⟩ := sendToSyslog_parts h
  obtain ⟨hname, hseverity, hfacility, htime, htext⟩ := sendToSyslog_fields h
  have hfront : '\n' ∉ header p.hostname p.severity p.facility p.time ++ p.tag ++ [':', ' '] := by
    simp only [List.mem_append, not_or]
    exact ⟨⟨hassembles.header _ _ _ _ hhostname, no_break_of_accepts hlib htag⟩, by decide⟩
  rw [hassembles.assemble, mem_fits_append hfront, contentOf_text hassembles.text hcontent,
    messageRoom, hname, hseverity, hfacility, htime, htext]

/-- The bytes on the socket are the packets, one line each and in order, exactly
when every message is shown on one line. -/
theorem framed_iff (hlib : lib.ChecksTags) (hassembles : lib.Assembles header) {chunk : List (Event τ)}
    {packets : List (Packet τ)} (h : chunk.mapM (sendToSyslog lib cfg) = .ok packets) :
    ∃ sent, write lib cfg chunk = .ok sent ∧
      (Framed lib packets sent ↔ ∀ e ∈ chunk, OnOneLine lib header cfg e) := by
  refine ⟨packets.map fun p => lib.assemble p ++ ['\n'], ?_, ?_⟩
  · rw [write, mapM_map, h]
    rfl
  · have hlines := @Text.lines_terminated_iff (packets.map lib.assemble)
    rw [List.map_map, List.forall_mem_map, forall_mapM_ok h] at hlines
    rw [Framed]
    apply hlines.trans
    refine forall₂_congr fun e he => ?_
    obtain ⟨p, hp⟩ := exists_mapM_ok.mp ⟨packets, h⟩ e he
    constructor
    · intro hbreak
      exact fun hmem => hbreak p hp ((break_assembled hlib hassembles hp).mpr hmem)
    · intro hline q hq hmem
      exact hline ((break_assembled hlib hassembles hq).mp hmem)

end Sent

def gemHeader : Header Timestamp := fun hostname severity facility time =>
  packetHeader ⟨hostname, severity, facility, time, [], .null⟩

theorem gem_assembles : gem.Assembles gemHeader where
  assemble _ := rfl
  header hostname severity facility time hhostname := by
    have hpriority (p : Packet Timestamp) : '\n' ∉ Nat.toDigits 10 (priority p) := by
      intro hmem
      exact absurd (Nat.isDigit_of_mem_toDigits (by decide) (by decide) hmem) (by decide)
    have hname : '\n' ∉ showJson hostname := by
      change isHostname hostname = true at hhostname
      cases hostname with
      | str h =>
        rw [isHostname, Bool.and_eq_true, Bool.not_eq_true', Bool.not_eq_true',
          List.any_eq_false] at hhostname
        intro hmem
        exact absurd rfl (hhostname.2 '\n' hmem)
      | _ => contradiction
    simp only [gemHeader, packetHeader, List.mem_cons, List.mem_append, not_or]
    exact ⟨by decide, ⟨⟨⟨⟨hpriority _, by decide⟩, time.property⟩, by decide⟩, hname⟩, by decide⟩
  text _ := rfl

/-- A message of two lines; the second one looks like a packet of its own. -/
def forgedEvent : Event Timestamp := webEvent "up\n<0>down".toList webFields

def forgedPacket : Packet Timestamp where
  hostname := .str "node-1".toList
  severity := .str "info".toList
  facility := .str "local0".toList
  time := newYear
  tag := "httpd1".toList
  content := .str "namespace_name=web, message=up\n<0>down".toList

theorem sends_forged : sendToSyslog gem nodeConfig forgedEvent = .ok forgedPacket := rfl

theorem chunk_forged : [forgedEvent].mapM (sendToSyslog gem nodeConfig) = .ok [forgedPacket] := by
  rw [List.mapM_cons, sends_forged]
  rfl

theorem framed_iff_forged :
    ∃ sent, write gem nodeConfig [forgedEvent] = .ok sent ∧
      (Framed gem [forgedPacket] sent ↔
        ∀ e ∈ [forgedEvent], OnOneLine gem gemHeader nodeConfig e) :=
  framed_iff gem_checksTags gem_assembles chunk_forged

theorem not_framed_forged :
    ∃ sent, write gem nodeConfig [forgedEvent] = .ok sent ∧ ¬ Framed gem [forgedPacket] sent := by
  refine ⟨[gem.assemble forgedPacket ++ ['\n']], ?_, ?_⟩
  · rw [write, mapM_map, chunk_forged]
    rfl
  · intro h
    have hlength := congrArg List.length h
    exact absurd hlength (by decide)

end AggregatedLogging.Syslog
