import AggregatedLogging.Audit.Declared
import AggregatedLogging.Audit.Rendered

/-! Which audit lines are read back as they are written. -/
namespace AggregatedLogging.Audit

open Regex Ruby

/-- What is read of a value: it ends at an equals sign, and a question mark is no value. -/
def readValue (value : Text) : Option Text :=
  if value.all (· = '=') then none
  else if value.takeWhile (· ≠ '=') = ['?'] then none
  else some (value.takeWhile (· ≠ '='))

theorem pairOf_word (t : Token) : pairOf t.word = (readValue t.value).map fun v => (t.key, v) := by
  have hkey : '=' ∉ t.key := fun hmem => (t.key_solid '=' hmem).2 rfl
  rw [readValue, pairOf, Token.word]
  have hall : t.value.all (· = '=') = true ↔ ∀ c ∈ t.value, c = '=' := by simp
  by_cases hvalue : ∀ c ∈ t.value, c = '='
  · have hlength := splitAt_lone hkey hvalue
    rw [if_pos (hall.mpr hvalue)]
    rcases hsplit : splitAt '=' (t.key ++ '=' :: t.value) with _ | ⟨k, _ | ⟨v, rest⟩⟩
    · rfl
    · rfl
    · rw [hsplit] at hlength
      simp at hlength
  · obtain ⟨rest, hrest⟩ := splitAt_pair hkey hvalue
    rw [if_neg fun h => hvalue (hall.mp h), hrest]
    by_cases hmark : t.value.takeWhile (· ≠ '=') = ['?']
    · simp only [hmark, ↓reduceIte, Option.map_none]
    · simp only [hmark, ↓reduceIte, Option.map_some]

theorem valuesOf_words (key : Text) (tokens : List Token) :
    valuesOf key (tokens.map Token.word) =
      (tokens.filter fun t => t.key = key).filterMap fun t => readValue t.value := by
  induction tokens with
  | nil => rfl
  | cons t tokens ih =>
    rw [List.map_cons, valuesOf_cons, ih, partValue, pairOf_word, List.filter_cons]
    by_cases hkey : t.key = key
    · cases hvalue : readValue t.value <;> simp [hkey, hvalue]
    · cases hvalue : readValue t.value <;> simp [hkey]

/-- A question mark stands for a value that is not known. -/
def known (value : Text) : Option Text := if value = ['?'] then none else some value

theorem readValue_plain {value : Text} (hne : value ≠ []) (hvalue : '=' ∉ value) :
    readValue value = known value := by
  have hsome : ¬ value.all (· = '=') = true := by
    intro hall
    obtain ⟨c, hc⟩ := List.exists_mem_of_ne_nil value hne
    exact hvalue (of_decide_eq_true (List.all_eq_true.mp hall c hc) ▸ hc)
  have htake : value.takeWhile (· ≠ '=') = value := by
    rw [List.takeWhile_eq_self_iff]
    intro c hc
    rw [decide_eq_true_eq]
    rintro rfl
    exact hvalue hc
  rw [readValue, if_neg hsome, htake, known]

theorem readValue_eq_known (value : Text) :
    readValue value = known value ↔ value ≠ [] ∧ '=' ∉ value := by
  constructor
  · intro h
    rw [readValue, known] at h
    by_cases hmark : value = ['?']
    · rw [hmark]
      decide
    · rw [if_neg hmark] at h
      split at h
      · contradiction
      · split at h
        · contradiction
        · rename_i hsome _
          have htake := Option.some.inj h
          constructor
          · rintro rfl
            exact hsome rfl
          · intro hmem
            rw [← htake] at hmem
            have := List.mem_takeWhile_imp hmem
            simp at this
  · rintro ⟨hne, hvalue⟩
    exact readValue_plain hne hvalue

def written (key : Text) (tokens : List Token) : Option Text :=
  ((tokens.find? fun t => t.key = key).map Token.value).bind known

namespace AuditLine

variable (l : AuditLine)

def exes : List Text := (l.message.filter fun t => t.key = exeKey).map Token.value

/-- The program next to the daemon. -/
def command : Option Text := (l.exes.erase daemonValue).head?.bind known

/-- No recognised value is empty or has an equals sign, the command is not taken for the
daemon, and nothing but the stamp gives the time. -/
structure Plain : Prop where
  finite : (toF l.time).isInfinite = false
  time : ∀ t ∈ l.host, t.key = timeKey → readValue t.value = none
  host : ∀ n ∈ hostNames, ∀ t ∈ l.host, t.key = n.2 → t.value ≠ [] ∧ '=' ∉ t.value
  docker : ∀ n ∈ dockerNames, ∀ t ∈ l.message, t.key = n.2 → t.value ≠ [] ∧ '=' ∉ t.value
  exe : ∀ e ∈ l.exes.erase daemonValue, e ≠ [] ∧ '=' ∉ e ∧ namesDaemon e = false

structure Carries (event : Event) : Prop where
  host : ∀ n ∈ hostNames, event.trusted.lookup n.1 = (written n.2 l.host).map Field.one
  docker : ∀ n ∈ dockerNames, event.docker.lookup n.1 = (written n.2 l.message).map Field.one
  exe : event.trusted.lookup hostExe = some (.one daemonValue)
  command : event.docker.lookup dockerCommand = l.command.map Field.one

end AuditLine

theorem filter_key_length {tokens : List Token} (h : Distinct tokens) (key : Text) :
    (tokens.filter fun t => t.key = key).length ≤ if key = exeKey then 2 else 1 := by
  have hcount := h key
  rw [List.count, List.countP_map, List.countP_eq_length_filter] at hcount
  refine le_trans (le_of_eq (congrArg List.length (List.filter_congr ?_))) hcount
  intro t _
  by_cases htkey : t.key = key <;> simp [htkey]

/-- A key that is not the program is read as written exactly when its value is plain. -/
theorem fieldOf_words {tokens : List Token} (h : Distinct tokens) {key : Text}
    (hkey : key ≠ exeKey) :
    fieldOf (valuesOf key (tokens.map Token.word)) = (written key tokens).map Field.one ↔
      ∀ t ∈ tokens, t.key = key → t.value ≠ [] ∧ '=' ∉ t.value := by
  have hlength := filter_key_length h key
  have hmem (t : Token) : t ∈ tokens.filter (fun t => t.key = key) ↔ t ∈ tokens ∧ t.key = key := by
    rw [List.mem_filter, decide_eq_true_eq]
  rw [valuesOf_words, written, ← List.head?_filter]
  rw [if_neg hkey] at hlength
  rcases htokens : tokens.filter (fun t => t.key = key) with _ | ⟨t, _ | ⟨u, rest⟩⟩
  · have hnone : ∀ t ∈ tokens, t.key = key → t.value ≠ [] ∧ '=' ∉ t.value := by
      intro t ht htkey
      have := (hmem t).mpr ⟨ht, htkey⟩
      rw [htokens] at this
      contradiction
    rw [htokens]
    exact iff_of_true rfl hnone
  · have hone : (∀ t ∈ tokens, t.key = key → t.value ≠ [] ∧ '=' ∉ t.value) ↔
        t.value ≠ [] ∧ '=' ∉ t.value := by
      constructor
      · intro hall
        have ht := (hmem t).mp (htokens ▸ List.mem_cons_self)
        exact hall t ht.1 ht.2
      · intro hplain u hu hukey
        have := (hmem u).mpr ⟨hu, hukey⟩
        rw [htokens, List.mem_singleton] at this
        exact this ▸ hplain
    rw [hone, ← readValue_eq_known]
    have hread : fieldOf ([t].filterMap fun t => readValue t.value) =
        (readValue t.value).map Field.one := by
      rw [List.filterMap_cons]
      cases readValue t.value <;> rfl
    rw [htokens, List.head?_cons, Option.map_some, Option.bind_some]
    constructor
    · intro heq
      exact Option.map_injective (fun _ _ h => Field.one.inj h) (hread.symm.trans heq)
    · intro heq
      exact hread.trans (congrArg _ heq)
  · rw [htokens] at hlength
    simp at hlength

theorem namesDaemon_daemonValue : namesDaemon daemonValue = true :=
  (namesDaemon_iff daemonValue).mpr ⟨"\"/usr/bin/".toList, ['"'], rfl⟩

theorem namesDaemon_unknown : namesDaemon ['?'] = false := by
  rw [← Bool.not_eq_true, namesDaemon_iff]
  decide

theorem readValue_daemonValue : readValue daemonValue = some daemonValue := by decide

theorem known_eq_none {value : Text} : known value = none ↔ value = ['?'] := by simp [known]

theorem eq_of_known {value v : Text} (h : known value = some v) : value = v := by
  rw [known] at h
  split at h
  · contradiction
  · exact Option.some.inj h

theorem exeOf_daemon {parts : List Text} (h : valuesOf exeKey parts = [daemonValue]) :
    exeOf (parseMsg parts) = some (.one daemonValue) ∧ commandOf (parseMsg parts) = none := by
  constructor
  · have hlookup := lookup_parseMsg parts exeKey
    rw [h] at hlookup
    have hmerged : merged [daemonValue] = [daemonValue] := rfl
    rw [exeOf_eq hlookup, hmerged, List.filter_cons, if_pos namesDaemon_daemonValue]
    rfl
  · apply commandOf_daemons
    intro e he
    rw [h, List.mem_singleton] at he
    rw [he, namesDaemon_daemonValue]

namespace AuditLine

variable (l : AuditLine)

theorem valuesOf_exe : valuesOf exeKey (l.message.map Token.word) = l.exes.filterMap readValue := by
  rw [valuesOf_words, exes, List.filterMap_map]
  rfl

theorem exes_cases : l.exes = [daemonValue] ∨ (∃ x, l.exes = [daemonValue, x]) ∨
    ∃ x, x ≠ daemonValue ∧ l.exes = [x, daemonValue] := by
  have hlength := filter_key_length l.message_distinct exeKey
  rw [if_pos rfl, ← List.length_map Token.value, ← exes] at hlength
  have hmem : daemonValue ∈ l.exes := by
    obtain ⟨t, ht, hkey, hvalue⟩ := l.daemon_exe
    rw [exes, ← hvalue]
    apply List.mem_map_of_mem
    rw [List.mem_filter, decide_eq_true_eq]
    exact ⟨ht, hkey⟩
  generalize l.exes = exes at hlength hmem
  rcases exes with _ | ⟨x, _ | ⟨y, _ | ⟨z, rest⟩⟩⟩
  · contradiction
  · exact .inl (by rw [List.mem_singleton.mp hmem])
  · by_cases hx : x = daemonValue
    · exact .inr (.inl ⟨y, by rw [hx]⟩)
    · have hy : y = daemonValue := by
        rcases List.mem_cons.mp hmem with h | h
        · exact absurd h.symm hx
        · exact (List.mem_singleton.mp h).symm
      exact .inr (.inr ⟨x, hx, by rw [hy]⟩)
  · simp at hlength

/-- The program next to the daemon is read as the command exactly when it is plain and does
not name the daemon. -/
theorem exe_other {x : Text}
    (h : valuesOf exeKey (l.message.map Token.word) = (readValue x).toList ++ [daemonValue] ∨
      valuesOf exeKey (l.message.map Token.word) = daemonValue :: (readValue x).toList) :
    (exeOf (parseMsg (l.message.map Token.word)) = some (.one daemonValue) ∧
      commandOf (parseMsg (l.message.map Token.word)) = (known x).map Field.one) ↔
      x ≠ [] ∧ '=' ∉ x ∧ namesDaemon x = false := by
  rw [← and_assoc, ← readValue_eq_known]
  cases hread : readValue x with
  | none =>
    have hone : valuesOf exeKey (l.message.map Token.word) = [daemonValue] := by
      rw [hread] at h
      exact h.elim id id
    obtain ⟨hexe, hcommand⟩ := exeOf_daemon hone
    rw [hexe, hcommand]
    constructor
    · rintro ⟨-, hknown⟩
      have hx := known_eq_none.mp (Option.map_eq_none_iff.mp hknown.symm)
      rw [hx]
      exact ⟨rfl, namesDaemon_unknown⟩
    · rintro ⟨hknown, -⟩
      rw [← hknown]
      exact ⟨rfl, rfl⟩
  | some y =>
    have hperm : (valuesOf exeKey (l.message.map Token.word)).Perm [daemonValue, y] := by
      rw [hread] at h
      rcases h with h | h
      · rw [h]
        exact .swap daemonValue y []
      · rw [h]
        exact .refl _
    cases hy : namesDaemon y with
    | true =>
      have hcommand : commandOf (parseMsg (l.message.map Token.word)) = none := by
        apply commandOf_daemons
        intro e he
        rcases List.mem_cons.mp (hperm.mem_iff.mp he) with rfl | he
        · exact namesDaemon_daemonValue
        · rw [List.mem_singleton.mp he, hy]
      rw [hcommand]
      constructor
      · rintro ⟨-, hknown⟩
        have hx := known_eq_none.mp (Option.map_eq_none_iff.mp hknown.symm)
        rw [hx] at hread
        contradiction
      · rintro ⟨hknown, hx⟩
        rw [eq_of_known hknown.symm, hy] at hx
        contradiction
    | false =>
      obtain ⟨hexe, hcommand⟩ := exeOf_pair_perm namesDaemon_daemonValue hy hperm
      rw [hcommand]
      constructor
      · rintro ⟨-, hknown⟩
        have hsome : known x = some y :=
          Option.map_injective (fun _ _ h => Field.one.inj h) hknown.symm
        exact ⟨hsome.symm, by rw [eq_of_known hsome, hy]⟩
      · rintro ⟨hknown, -⟩
        refine ⟨hexe, ?_⟩
        rw [← hknown]
        rfl

theorem exe_iff :
    (exeOf (parseMsg (l.message.map Token.word)) = some (.one daemonValue) ∧
      commandOf (parseMsg (l.message.map Token.word)) = l.command.map Field.one) ↔
      ∀ e ∈ l.exes.erase daemonValue, e ≠ [] ∧ '=' ∉ e ∧ namesDaemon e = false := by
  have hvalues := l.valuesOf_exe
  rcases l.exes_cases with h | ⟨x, h⟩ | ⟨x, hx, h⟩
  · have hone : valuesOf exeKey (l.message.map Token.word) = [daemonValue] := by
      rw [hvalues, h]
      rfl
    obtain ⟨hexe, hcommand⟩ := exeOf_daemon hone
    rw [hexe, hcommand, command, h, List.erase_cons_head]
    simp
  · have hother := l.exe_other (x := x) (.inr (by
      rw [hvalues, h, List.filterMap_cons, readValue_daemonValue, List.filterMap_cons]
      cases readValue x <;> rfl))
    rw [command, h, List.erase_cons_head, List.head?_cons, Option.bind_some, hother]
    simp
  · have hother := l.exe_other (x := x) (.inl (by
      rw [hvalues, h, List.filterMap_cons]
      cases readValue x <;> rfl))
    have herase : [x, daemonValue].erase daemonValue = [x] := by
      rw [List.erase_cons_tail (by simpa using hx), List.erase_cons_head]
    rw [command, h, herase, List.head?_cons, Option.bind_some, hother]
    simp

theorem time_iff : valuesOf timeKey (l.host.map Token.word) = [] ↔
    ∀ t ∈ l.host, t.key = timeKey → readValue t.value = none := by
  rw [valuesOf_words, List.filterMap_eq_nil_iff]
  simp [List.mem_filter]

theorem carries_iff (hostname : Option Text) (clock : Clock) (seconds : Decimal) :
    l.Carries (eventAt hostname clock seconds (hostEntries l.stamp (l.host.map Token.word))
        (parseMsg (l.message.map Token.word))) ↔
      (∀ n ∈ hostNames, ∀ t ∈ l.host, t.key = n.2 → t.value ≠ [] ∧ '=' ∉ t.value) ∧
      (∀ n ∈ dockerNames, ∀ t ∈ l.message, t.key = n.2 → t.value ≠ [] ∧ '=' ∉ t.value) ∧
      ∀ e ∈ l.exes.erase daemonValue, e ≠ [] ∧ '=' ∉ e ∧ namesDaemon e = false := by
  have hhost (n : Text × Text) (hn : n ∈ hostNames) :
      (eventAt hostname clock seconds (hostEntries l.stamp (l.host.map Token.word))
        (parseMsg (l.message.map Token.word))).trusted.lookup n.1 =
          (written n.2 l.host).map Field.one ↔
        ∀ t ∈ l.host, t.key = n.2 → t.value ≠ [] ∧ '=' ∉ t.value := by
    rw [lookup_trusted _ _ _ _ _ hn, lookup_hostEntries (hostNames_ne_time n hn)]
    exact fieldOf_words l.host_distinct (hostNames_ne_exe n hn)
  have hdocker (n : Text × Text) (hn : n ∈ dockerNames) :
      (eventAt hostname clock seconds (hostEntries l.stamp (l.host.map Token.word))
        (parseMsg (l.message.map Token.word))).docker.lookup n.1 =
          (written n.2 l.message).map Field.one ↔
        ∀ t ∈ l.message, t.key = n.2 → t.value ≠ [] ∧ '=' ∉ t.value := by
    rw [lookup_docker _ _ _ _ _ hn, lookup_parseMsg]
    exact fieldOf_words l.message_distinct (dockerNames_ne_exe n hn)
  rw [← l.exe_iff]
  constructor
  · intro h
    refine ⟨fun n hn => (hhost n hn).mp (h.host n hn),
      fun n hn => (hdocker n hn).mp (h.docker n hn), ?_, ?_⟩
    · rw [← h.exe, lookup_hostExe]
    · rw [← h.command, lookup_dockerCommand]
  · rintro ⟨h, h', hexe, hcommand⟩
    refine ⟨fun n hn => (hhost n hn).mpr (h n hn), fun n hn => (hdocker n hn).mpr (h' n hn), ?_, ?_⟩
    · rw [lookup_hostExe, hexe]
    · rw [lookup_dockerCommand, hcommand]

/-- The parser returns an event that carries what is written in the line. -/
def RoundTrips (hostname : Option Text) (clock : Clock) : Prop :=
  ∃ event, parseAuditLine hostname clock (.text l.text) = .ok (some event) ∧ l.Carries event

theorem roundTrips_iff (hostname : Option Text) (clock : Clock) :
    l.RoundTrips hostname clock ↔ l.Plain := by
  constructor
  · rintro ⟨event, hevent, hcarries⟩
    obtain ⟨htime, hfinite, rfl⟩ := l.parse_text.mp hevent
    obtain ⟨hhost, hdocker, hexe⟩ := (l.carries_iff hostname clock _).mp hcarries
    exact ⟨hfinite, l.time_iff.mp htime, hhost, hdocker, hexe⟩
  · intro h
    refine ⟨_, l.parse_text.mpr ⟨l.time_iff.mpr h.time, h.finite, rfl⟩, ?_⟩
    exact (l.carries_iff hostname clock _).mpr ⟨h.host, h.docker, h.exe⟩

end AuditLine

def releaseLine : AuditLine where
  toTokenLine := stamped [token 0 "pid".toList "14500".toList (Eq.refl true) (Eq.refl true)]
    [token 0 exeKey "/opt/release=7/run".toList (Eq.refl true) (Eq.refl true),
      token 0 exeKey daemonValue (Eq.refl true) (Eq.refl true)]
    ⟨_, List.mem_of_getLast? rfl, ['"'], ['"'], rfl⟩
  host_distinct := distinct_of_erase (by decide)
  message_distinct := distinct_of_erase (by decide)
  daemon_exe := ⟨_, List.mem_of_getLast? rfl, rfl, rfl⟩

/-- Of the command only the part up to the equals sign is read. -/
theorem not_roundTrips_release : ¬ releaseLine.RoundTrips none sampleClock := by
  rintro ⟨event, hevent, hcarries⟩
  obtain ⟨-, -, rfl⟩ := releaseLine.parse_text.mp hevent
  have hread : commandOf (parseMsg (releaseLine.message.map Token.word)) =
      some (.one "/opt/release".toList) := by decide +kernel
  have hcommand := hcarries.command
  rw [lookup_dockerCommand, hread] at hcommand
  revert hcommand
  decide +kernel

end AggregatedLogging.Audit
