import AggregatedLogging.Audit.Fields
import AggregatedLogging.Audit.Message

/-! Audit lines as the container engine writes them, and how the parser takes them apart:
into a stamp and into the tokens of both parts. -/
namespace AggregatedLogging.Audit

open Regex Ruby
open Text (forall_of_all)

def isSolid (c : Char) : Bool := !Ruby.isSpace c && c ≠ '\''

/-- A key with its value; there may be more than one blank in front of it. -/
structure Token where
  blanks : Nat := 0
  key : Text
  value : Text
  key_solid : ∀ c ∈ key, isSolid c = true ∧ c ≠ '='
  value_solid : ∀ c ∈ value, isSolid c = true

def Token.word (t : Token) : Text := t.key ++ '=' :: t.value

def daemonValue : Text := "\"/usr/bin/dockerd-current\"".toList

/-- A line whose two parts are made of tokens.  The path of the daemon stands in one of
them. -/
structure TokenLine where
  time : Text
  serial : Text
  host : List Token
  message : List Token
  time_solid : ∀ c ∈ time, isSolid c = true
  serial_ne : serial ≠ []
  serial_digits : serial.all Char.isDigit = true
  daemon : ∃ t ∈ message, daemonPath <:+: t.value

/-- The program may be named twice, every other key once. -/
def Distinct (tokens : List Token) : Prop :=
  ∀ key, (tokens.map Token.key).count key ≤ if key = exeKey then 2 else 1

/-- A line of the documented form. -/
structure AuditLine extends TokenLine where
  host_distinct : Distinct host
  message_distinct : Distinct message
  daemon_exe : ∃ t ∈ message, t.key = exeKey ∧ t.value = daemonValue

def recordStart : Text := "type=VIRT_CONTROL".toList

def stampStart : Text := "msg=audit(".toList

def stampToken (time serial : Text) : Text :=
  stampStart ++ (time ++ ':' :: (serial ++ ")".toList ++ ":".toList))

def tokenWords (tokens : List Token) : List (Nat × Text) := tokens.map fun t => (t.blanks, t.word)

namespace TokenLine

variable (l : TokenLine)

def stamp : Text := stampToken l.time l.serial

def metadata : Text := recordStart ++ spread ((0, l.stamp) :: tokenWords l.host)

def inner : Text := (spread (tokenWords l.message)).drop 1

def text : Text := l.metadata ++ (innerOpen ++ (l.inner ++ ['\'']))

end TokenLine

theorem isSolid_space {c : Char} (h : isSolid c = true) : Ruby.isSpace c = false := by
  rw [isSolid, Bool.and_eq_true] at h
  simpa using h.1

theorem Token.solid_word (t : Token) : ∀ c ∈ t.word, isSolid c = true := by
  intro c hc
  rcases List.mem_append.mp hc with h | h
  · exact (t.key_solid c h).1
  · rcases List.mem_cons.mp h with rfl | h
    · rfl
    · exact t.value_solid c h

theorem Token.isWord (t : Token) : IsWord t.word where
  ne_nil := by simp [word]
  solid c hc := isSolid_space (t.solid_word c hc)

theorem isWord_tokenWords (tokens : List Token) : ∀ p ∈ tokenWords tokens, IsWord p.2 := by
  intro p hp
  obtain ⟨t, -, rfl⟩ := List.mem_map.mp hp
  exact t.isWord

theorem map_tokenWords (tokens : List Token) :
    (tokenWords tokens).map Prod.snd = tokens.map Token.word := by
  simp [tokenWords]

theorem notMem_spread {c : Char} (hc : c ≠ ' ') {ws : List (Nat × Text)} (h : ∀ p ∈ ws, c ∉ p.2) :
    c ∉ spread ws := by
  intro hmem
  obtain ⟨p, hp, hmem⟩ := List.mem_flatMap.mp hmem
  rcases List.mem_append.mp hmem with hblank | hword
  · exact hc (List.eq_of_mem_replicate hblank)
  · exact h p hp hword

theorem isSolid_digit {c : Char} (h : c.isDigit = true) : isSolid c = true := by
  have hspace : Ruby.isSpace c = false := by
    by_contra hspace
    rw [Bool.not_eq_false, Ruby.isSpace] at hspace
    simp only [Bool.or_eq_true, decide_eq_true_eq] at hspace
    rcases hspace with ((((rfl | rfl) | rfl) | rfl) | rfl) | rfl <;> revert h <;> decide
  have hquote : c ≠ '\'' := by
    rintro rfl
    revert h
    decide
  simp [isSolid, hspace, hquote]

namespace TokenLine

variable (l : TokenLine)

theorem solid_stamp : ∀ c ∈ l.stamp, isSolid c = true := by
  have hends : ∀ c ∈ stampStart ++ ':' :: (")".toList ++ ":".toList), isSolid c = true :=
    forall_of_all (by decide)
  intro c hc
  simp only [stamp, stampToken, List.mem_append, List.mem_cons] at hc hends
  rcases hc with h | h | h | (h | h) | h
  · exact hends c (.inl h)
  · exact l.time_solid c h
  · exact hends c (.inr (.inl h))
  · exact isSolid_digit (List.all_eq_true.mp l.serial_digits c h)
  · exact hends c (.inr (.inr (.inl h)))
  · exact hends c (.inr (.inr (.inr h)))

theorem isWord_stamp : IsWord l.stamp where
  ne_nil := by
    intro h
    rw [stamp, stampToken, List.append_eq_nil_iff] at h
    exact absurd h.1 (by decide)
  solid c hc := isSolid_space (l.solid_stamp c hc)

theorem words_metadata : words l.metadata = recordStart :: l.stamp :: l.host.map Token.word := by
  have hstart : IsWord recordStart := ⟨by decide, forall_of_all (by decide)⟩
  have hall : ∀ p ∈ (0, recordStart) :: (0, l.stamp) :: tokenWords l.host, IsWord p.2 := by
    intro p hp
    rcases List.mem_cons.mp hp with rfl | hp
    · exact hstart
    · rcases List.mem_cons.mp hp with rfl | hp
      · exact l.isWord_stamp
      · exact isWord_tokenWords l.host p hp
  have hwords := words_drop_spread hall
  rw [List.map_cons, List.map_cons, map_tokenWords] at hwords
  exact hwords

theorem words_inner : words l.inner = l.message.map Token.word := by
  rw [inner, words_drop_spread (isWord_tokenWords l.message), map_tokenWords]

theorem notMem_metadata {c : Char} (hc : c = '\n' ∨ c = '\'') : c ∉ l.metadata := by
  have hsolid : isSolid c = false := by rcases hc with rfl | rfl <;> rfl
  have hnot {w : Text} (hw : ∀ d ∈ w, isSolid d = true) : c ∉ w := by
    intro hmem
    rw [hw c hmem] at hsolid
    contradiction
  have hstart : c ∉ recordStart := by rcases hc with rfl | rfl <;> decide
  have hblank : c ≠ ' ' := by rcases hc with rfl | rfl <;> decide
  rw [metadata, List.mem_append, not_or]
  refine ⟨hstart, notMem_spread hblank ?_⟩
  intro p hp
  rcases List.mem_cons.mp hp with rfl | hp
  · exact hnot l.solid_stamp
  · obtain ⟨t, -, rfl⟩ := List.mem_map.mp hp
    exact hnot t.solid_word

theorem notMem_inner {c : Char} (hc : c = '\n' ∨ c = '\'') : c ∉ l.inner := by
  have hsolid : isSolid c = false := by rcases hc with rfl | rfl <;> rfl
  have hblank : c ≠ ' ' := by rcases hc with rfl | rfl <;> decide
  intro hmem
  refine notMem_spread hblank ?_ (List.mem_of_mem_drop hmem)
  intro p hp hmem
  obtain ⟨t, -, rfl⟩ := List.mem_map.mp hp
  rw [t.solid_word c hmem] at hsolid
  contradiction

theorem encloses_text : Encloses l.text l.metadata l.inner [] where
  eq := rfl
  inline := l.notMem_metadata (.inl rfl)
  inner := l.notMem_inner (.inl rfl)
  unquoted := l.notMem_inner (.inr rfl)
  first := by
    rintro v hv hne ⟨r, hr⟩
    have hquote : '\'' ∉ v := fun hmem => l.notMem_metadata (.inr rfl) (hv.subset hmem)
    have hopen : innerOpen = " msg=".toList ++ ['\''] := rfl
    have hsplit : " msg=".toList ++ '\'' :: r = (v ++ " msg=".toList) ++ ['\''] := by
      rw [hopen] at hr
      simpa using hr
    have hleft : '\'' ∉ v ++ " msg=".toList := by
      rw [List.mem_append, not_or]
      exact ⟨hquote, by decide⟩
    have hlength := congrArg List.length (Text.split_unique (by decide) hleft hsplit).1
    rw [List.length_append] at hlength
    exact hne (List.eq_nil_of_length_eq_zero (by omega))

theorem messageParts_text : messageParts l.text = some (l.metadata, l.inner) :=
  messageParts_encloses l.encloses_text

theorem daemonPath_text : daemonPath <:+: l.text := by
  obtain ⟨t, hmem, hvalue⟩ := l.daemon
  have hword : daemonPath <:+: t.word :=
    hvalue.trans ((List.suffix_cons '=' t.value).trans (List.suffix_append t.key _)).isInfix
  have hinner : daemonPath <:+: l.inner := by
    apply (infix_words (by decide) daemonPath_solid l.inner).mpr
    rw [l.words_inner]
    exact ⟨t.word, List.mem_map_of_mem hmem, hword⟩
  exact hinner.trans ⟨l.metadata ++ innerOpen, ['\''], by simp [text]⟩

theorem typeOf_recordStart (s : Text) : typeOf (recordStart ++ ' ' :: s) = some virtControl := by
  have htype : typeAt [] (recordStart ++ ' ' :: s) = some virtControl :=
    typeAt_blank [] recordStart s []
  have hcons : recordStart = 't' :: "ype=VIRT_CONTROL".toList := rfl
  rw [hcons, List.cons_append] at htype ⊢
  rw [typeOf_eq, typeFrom_cons, htype, Option.some_or]

theorem filterVirtControl_text : filterVirtControl l.text = true := by
  have htext : ∃ s, l.text = recordStart ++ ' ' :: s := by
    refine ⟨(spread ((0, l.stamp) :: tokenWords l.host)).drop 1 ++
      (innerOpen ++ (l.inner ++ ['\''])), ?_⟩
    rw [text, metadata, List.append_assoc]
    rfl
  obtain ⟨s, hs⟩ := htext
  apply (filterVirtControl_iff l.text).mpr
  refine ⟨?_, l.daemonPath_text⟩
  rw [hs, typeOf_recordStart]

end TokenLine

def stampRegex : Pattern where
  node := litsThen stampStart (.seq (.capture 1 (.seq (.rep 0 none true (.atom .dot)) .empty))
    (.seq (.atom (.lit ':')) (.seq (.rep 1 none true (.atom (.cls false [.digit false])))
      (litsThen [')', ':'] .empty))))
  groups := 1
  names := [("g1".toList, 1)]
  flags := Dialect.ruby.flags

theorem compile_stamp : compile .ruby stampPattern = some stampRegex := rfl

def closing : Text := [')', ':']

/-- The serial number behind the time of a stamp. -/
def serialNode : Node :=
  .seq (.atom (.lit ':')) (.seq (.rep 1 none true (.atom (.cls false [.digit false])))
    (litsThen closing .empty))

theorem digit_run (s : State) :
    (Node.atom (.cls false [.digit false])).run Dialect.ruby.flags s = s.eat Char.isDigit := by
  rw [Node.run, Atom.run]
  congr 1
  funext c
  simp [classHolds, literal_ruby.1, ClassItem.holds]

theorem serialNode_head {serial : Text} (hne : serial ≠ []) (hserial : serial.all Char.isDigit = true)
    (past : Text) (c : Captures) :
    (serialNode.run Dialect.ruby.flags ⟨⟨past, ':' :: (serial ++ closing)⟩, c⟩).head? =
      some ⟨⟨closing.reverse ++ (serial.reverse ++ ':' :: past), []⟩, c⟩ := by
  cases serial with
  | nil => contradiction
  | cons d serial =>
    rw [List.all_cons, Bool.and_eq_true] at hserial
    have hclosing (past : Text) : (litsThen closing .empty).run Dialect.ruby.flags
        ⟨⟨past, closing⟩, c⟩ = [⟨⟨closing.reverse ++ past, []⟩, c⟩] := by
      have := litsThen_run_append literal_ruby.1 closing past [] c .empty
      rwa [List.append_nil] at this
    have hlater (t : State) (ht : t.cursor.rest <:+ [':']) :
        (litsThen closing .empty).run Dialect.ruby.flags t = [] := by
      obtain ⟨⟨before, after⟩, captures⟩ := t
      apply litsThen_run_fails literal_ruby.1
      intro hprefix
      have := hprefix.length_le.trans ht.length_le
      simp [closing] at this
    rw [serialNode, lit_run literal_ruby.1, if_pos rfl, Node.run, List.cons_append,
      rep_one_run digit_run hserial.1]
    have hhere := hclosing (serial.reverse ++ (d :: ':' :: past))
    have hhead := head_eats hlater hserial.2 (ne_of_eq_of_ne hhere (List.cons_ne_nil _ _))
    refine hhead.trans ?_
    rw [← closing, hhere, List.reverse_cons, List.append_assoc]
    rfl

theorem serialNode_later {serial : Text} (hserial : serial.all Char.isDigit = true) {t : State}
    (ht : t.cursor.rest <:+ serial ++ closing) : serialNode.run Dialect.ruby.flags t = [] := by
  obtain ⟨⟨before, after⟩, captures⟩ := t
  cases after with
  | nil => rfl
  | cons y after =>
    rw [serialNode, lit_run literal_ruby.1]
    split
    · rename_i hy
      obtain ⟨u, hu⟩ := ht
      have hcolon : ':' ∉ serial ++ [')'] := by
        rw [List.mem_append, not_or]
        refine ⟨fun hmem => ?_, by decide⟩
        exact absurd (List.all_eq_true.mp hserial ':' hmem) (by decide)
      have hsplit : (serial ++ [')']) ++ ':' :: [] = u ++ ':' :: after := by
        rw [List.append_assoc]
        exact (hy ▸ hu).symm
      rcases Text.split_first hcolon hsplit with ⟨-, rfl⟩ | ⟨v, -, hv⟩
      · rw [Node.run, Node.run, funext digit_run]
        rfl
      · simp at hv
    · rfl

/-- The text in front of the last colon with a number behind it is the time. -/
theorem stampRegex_head {time serial : Text} (htime : '\n' ∉ time) (hne : serial ≠ [])
    (hserial : serial.all Char.isDigit = true) :
    (stampRegex.node.run Dialect.ruby.flags ⟨.start (stampToken time serial), fun _ => none⟩).head? =
      some ⟨⟨closing.reverse ++ (serial.reverse ++ ':' :: (time.reverse ++ stampStart.reverse)), []⟩,
        Captures.set (fun _ => none) 1 time⟩ := by
  have hempty : Node.run Dialect.ruby.flags .empty = fun s => [s] := rfl
  have hnode : stampRegex.node = litsThen stampStart
      (.seq (.capture 1 (.seq (.rep 0 none true (.atom .dot)) .empty)) serialNode) := rfl
  have htoken : stampToken time serial = stampStart ++ (time ++ ':' :: (serial ++ closing)) := by
    rw [stampToken, List.append_assoc]
    rfl
  have hall : time.all (fun d => Dialect.ruby.flags.dotAll || decide (d ≠ '\n')) = true := by
    rw [literal_ruby.2, List.all_eq_true]
    intro d hd
    rw [Bool.false_or, decide_eq_true_eq]
    rintro rfl
    exact htime hd
  have hhere : (serialNode.run Dialect.ruby.flags (State.capture 1
      ⟨⟨stampStart.reverse, time ++ ':' :: (serial ++ closing)⟩, fun _ => none⟩
      ⟨⟨time.reverse ++ stampStart.reverse, ':' :: (serial ++ closing)⟩, fun _ => none⟩)).head? =
      some ⟨⟨closing.reverse ++ (serial.reverse ++ ':' :: (time.reverse ++ stampStart.reverse)), []⟩,
        Captures.set (fun _ => none) 1 time⟩ := by
    rw [capture_append, serialNode_head hne hserial]
  rw [hnode, Cursor.start, htoken, litsThen_run_append literal_ruby.1, List.append_nil, Node.run,
    Node.run, Node.run, hempty, List.flatMap_singleton', rep_zero_run (dot_run Dialect.ruby.flags),
    List.flatMap_map, ← hhere]
  apply head_eats _ hall
  · intro hnil
    rw [hnil] at hhere
    contradiction
  · intro t ht
    exact serialNode_later hserial ht

theorem stampOf_stampToken {time serial : Text} (htime : '\n' ∉ time) (hne : serial ≠ [])
    (hserial : serial.all Char.isDigit = true) : stampOf (stampToken time serial) = time := by
  have hmatch := stampRegex_head htime hne hserial
  have hsearch : stampRegex.search (stampToken time serial) = some ⟨.start (stampToken time serial),
      ⟨⟨closing.reverse ++ (serial.reverse ++ ':' :: (time.reverse ++ stampStart.reverse)), []⟩,
        Captures.set (fun _ => none) 1 time⟩⟩ := by
    apply Pattern.search_start
    have hflags : stampRegex.flags = Dialect.ruby.flags := rfl
    rw [Pattern.matchAt, hflags, hmatch, Option.map_some]
  rw [stampOf, search, compile_stamp, Option.bind_some, hsearch, Option.elim_some]
  exact List.append_nil time

theorem TokenLine.parse_text (l : TokenLine) {hostname : Option Text} {clock : Clock} {event : Event} :
    parseAuditLine hostname clock (.text l.text) = .ok (some event) ↔
      valuesOf timeKey (l.host.map Token.word) = [] ∧ (toF l.time).isInfinite = false ∧
        event = eventAt hostname clock (toF l.time)
          (hostEntries l.stamp (l.host.map Token.word))
          (parseMsg (l.message.map Token.word)) := by
  have hline : '\n' ∉ l.time := fun hmem => absurd (l.time_solid '\n' hmem) (by decide)
  have hstamp : stampOf l.stamp = l.time :=
    stampOf_stampToken hline l.serial_ne l.serial_digits
  rw [parseAuditLine, parseText_eq_some]
  constructor
  · rintro ⟨-, g1, g2, first, stamp, parts, hparts, hwords, htime, hfinite, rfl⟩
    obtain ⟨rfl, rfl⟩ := Prod.mk.inj (Option.some.inj (l.messageParts_text.symm.trans hparts))
    rw [l.words_metadata] at hwords
    obtain ⟨rfl, hrest⟩ := List.cons.inj hwords
    obtain ⟨rfl, rfl⟩ := List.cons.inj hrest
    rw [hstamp] at hfinite ⊢
    rw [l.words_inner]
    exact ⟨htime, hfinite, rfl⟩
  · rintro ⟨htime, hfinite, rfl⟩
    refine ⟨l.filterVirtControl_text, l.metadata, l.inner, recordStart, l.stamp, _,
      l.messageParts_text, l.words_metadata, htime, by rw [hstamp]; exact hfinite, ?_⟩
    rw [hstamp, l.words_inner]

theorem distinct_of_erase {tokens : List Token}
    (h : ((tokens.map Token.key).erase exeKey).Nodup) : Distinct tokens := by
  intro key
  have hcount := List.nodup_iff_count.mp h key
  rw [List.count_erase] at hcount
  by_cases hkey : key = exeKey
  · rw [if_pos hkey]
    split at hcount <;> omega
  · rw [if_neg hkey]
    rw [if_neg (by simpa using Ne.symm hkey)] at hcount
    omega

def token (blanks : Nat) (key value : Text) (hkey : key.all (fun c => isSolid c && c ≠ '=') = true)
    (hvalue : value.all isSolid = true) : Token where
  blanks := blanks
  key := key
  value := value
  key_solid := by
    intro c hc
    have hboth := List.all_eq_true.mp hkey c hc
    rw [Bool.and_eq_true, decide_eq_true_eq] at hboth
    exact hboth
  value_solid := List.all_eq_true.mp hvalue

def stamped (host message : List Token) (h : ∃ t ∈ message, daemonPath <:+: t.value) :
    TokenLine where
  time := "1504273220.029".toList
  serial := "520188".toList
  host := host
  message := message
  time_solid := forall_of_all (by decide)
  serial_ne := by decide
  serial_digits := by decide
  daemon := h

def execLine : AuditLine where
  toTokenLine := stamped
    [token 0 "pid".toList "14500".toList (Eq.refl true) (Eq.refl true),
      token 0 "uid".toList ['0'] (Eq.refl true) (Eq.refl true)]
    [token 0 "vm".toList "origin".toList (Eq.refl true) (Eq.refl true),
      token 0 "user".toList ['?'] (Eq.refl true) (Eq.refl true),
      token 0 exeKey "entrypoint".toList (Eq.refl true) (Eq.refl true),
      token 0 "hostname".toList "kibana".toList (Eq.refl true) (Eq.refl true),
      token 1 exeKey daemonValue (Eq.refl true) (Eq.refl true)]
    ⟨_, List.mem_of_getLast? rfl, ['"'], ['"'], rfl⟩
  host_distinct := distinct_of_erase (by decide)
  message_distinct := distinct_of_erase (by decide)
  daemon_exe := ⟨_, List.mem_of_getLast? rfl, rfl, rfl⟩

end AggregatedLogging.Audit
