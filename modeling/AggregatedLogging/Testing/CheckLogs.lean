import AggregatedLogging.Quoting

/-! The program that looks for the messages of Elasticsearch in the logs they come from.  Every
message goes into a command for the shell, between double quotes. -/
namespace AggregatedLogging.Testing

open Quoting

section Program

/-- `strings.Replace(message, old, new, -1)` for an `old` of one character. -/
def replace (message : Text) (old : Char) (new : Text) : Text :=
  message.flatMap fun c => if c = old then new else [c]

def escapeJournal (message : Text) : Text :=
  let message := replace message '\\' "\\\\".toList
  let message := replace message '"' "\\\"".toList
  let message := replace message '`' "\\`".toList
  replace message '$' "\\$".toList

def escapeFile (message : Text) : Text :=
  let message := replace message '\\' "\\\\\\\\".toList
  let message := replace message '[' "\\[".toList
  let message := replace message ']' "\\]".toList
  let message := replace message '*' "\\*".toList
  let message := replace message '"' "\\\"".toList
  let message := replace message '`' "\\`".toList
  replace message '$' "\\$".toList

/-- Whether to look in the journal, by the path and by `USE_JOURNAL`. -/
def usesJournal (filePath journal : Text) : Bool :=
  filePath = "journal".toList || journal = "true".toList

def escape (filePath journal message : Text) : Text :=
  if usesJournal filePath journal then escapeJournal message else escapeFile message

def searchCmd (filePath journal message : Text) : Text :=
  if usesJournal filePath journal then
    "journalctl -m MESSAGE=\"".toList ++ (escapeJournal message ++ ['"'])
  else "grep \"".toList ++ (escapeFile message ++ ('"' :: ' ' :: filePath))

structure Report where
  totalEntries : Nat
  foundEntries : Nat
  missesBuffer : Text
  deriving DecidableEq, Repr

def Report.miss (message : Text) (r : Report) : Report :=
  { r with
    foundEntries := r.foundEntries - 1
    missesBuffer := r.missesBuffer ++ (" ! Log entry '".toList ++ (message ++
      "' was not found in path\n".toList)) }

/-- One round of the loop; `succeeds` tells how the shell ends. -/
def checkMessage (succeeds : Text → Bool) (filePath journal : Text) (r : Report) (message : Text) :
    Report :=
  if succeeds (searchCmd filePath journal message) then r
  else r.miss (escape filePath journal message)

def checkLogs (succeeds : Text → Bool) (filePath journal : Text) (messages : List Text) : Report :=
  messages.foldl (checkMessage succeeds filePath journal) ⟨messages.length, messages.length, []⟩

def Report.success (r : Report) : Bool := r.foundEntries = r.totalEntries && r.totalEntries ≠ 0

end Program

section Claim

def isMeta (c : Char) : Bool := c = '[' || c = ']' || c = '*'

def searchPattern (message : Text) : Text :=
  message.flatMap fun c => if c = '\\' || isMeta c then ['\\', c] else [c]

/-- The command is one of `journalctl` or `grep`, and the message is one word in double quotes. -/
structure Confined (filePath journal message : Text) : Prop where
  inJournal : usesJournal filePath journal = true →
    ∃ word, readCommand (searchCmd filePath journal message) =
        some [[.bare "journalctl".toList], [.bare "-m".toList], word] ∧
      word = [.bare "MESSAGE=".toList, .quoted message] ∧
      value word = "MESSAGE=".toList ++ message
  inFile : usesJournal filePath journal = false →
    ∀ files, readCommand filePath = some files →
      readCommand (searchCmd filePath journal message) =
        some ([.bare "grep".toList] :: [.quoted (searchPattern message)] :: files)

end Claim

section Escaping

variable {c : Char} {message t : Text}

theorem replace_cons (c : Char) (message : Text) (old : Char) (new : Text) :
    replace (c :: message) old new = (if c = old then new else [c]) ++ replace message old new := by
  rw [replace, List.flatMap_cons]
  rfl

theorem replace_append (s t : Text) (old : Char) (new : Text) :
    replace (s ++ t) old new = replace s old new ++ replace t old new :=
  List.flatMap_append

theorem escapeJournal_cons (c : Char) (message : Text) :
    escapeJournal (c :: message) = escapeJournal [c] ++ escapeJournal message := by
  have hsplit : c :: message = [c] ++ message := rfl
  rw [hsplit, escapeJournal, replace_append, replace_append, replace_append, replace_append]
  rfl

theorem escapeFile_cons (c : Char) (message : Text) :
    escapeFile (c :: message) = escapeFile [c] ++ escapeFile message := by
  have hsplit : c :: message = [c] ++ message := rfl
  rw [hsplit, escapeFile, replace_append, replace_append, replace_append, replace_append,
    replace_append, replace_append, replace_append]
  rfl

theorem replace_single (c old : Char) (new : Text) :
    replace [c] old new = if c = old then new else [c] := List.append_nil _

theorem replace_other {old : Char} (h : c ≠ old) (new : Text) : replace [c] old new = [c] := by
  rw [replace_single, if_neg h]

theorem forall_isEscapable {p : Char → Prop} (h : isEscapable c = true)
    (hp : p '$' ∧ p '`' ∧ p '"' ∧ p '\\') : p c := by
  simp only [isEscapable, Bool.or_eq_true, decide_eq_true_eq] at h
  obtain ((rfl | rfl) | rfl) | rfl := h
  · exact hp.1
  · exact hp.2.1
  · exact hp.2.2.1
  · exact hp.2.2.2

theorem escapeJournal_escapable (h : isEscapable c = true) : escapeJournal [c] = ['\\', c] :=
  forall_isEscapable (p := fun c => escapeJournal [c] = ['\\', c]) h ⟨rfl, rfl, rfl, rfl⟩

theorem escapeJournal_plain (h : isEscapable c = false) : escapeJournal [c] = [c] := by
  simp only [isEscapable, Bool.or_eq_false_iff, decide_eq_false_iff_not] at h
  rw [escapeJournal, replace_other h.2, replace_other h.1.2, replace_other h.1.1.2,
    replace_other h.1.1.1]

theorem readFrom_escapeJournal (message : Text) (done : List Word) (word : Word) (past : Text) :
    readFrom (escapeJournal message ++ t) ⟨done, word, .quotes past⟩ =
      readFrom t ⟨done, word, .quotes (message.reverse ++ past)⟩ := by
  induction message generalizing past with
  | nil => rfl
  | cons c message ih =>
    have hrest := ih (c :: past)
    rw [escapeJournal_cons, List.reverse_cons, List.append_assoc, List.append_assoc]
    cases h : isEscapable c with
    | true =>
      rw [escapeJournal_escapable h, List.cons_append, List.singleton_append, readFrom_escaped h]
      exact hrest
    | false =>
      rw [escapeJournal_plain h, List.singleton_append, readFrom_plain h]
      exact hrest

theorem escapeFile_slash : escapeFile ['\\'] = ['\\', '\\', '\\', '\\'] := rfl

theorem forall_isMeta {p : Char → Prop} (h : isMeta c = true) (hp : p '[' ∧ p ']' ∧ p '*') :
    p c := by
  simp only [isMeta, Bool.or_eq_true, decide_eq_true_eq] at h
  obtain (rfl | rfl) | rfl := h
  · exact hp.1
  · exact hp.2.1
  · exact hp.2.2

theorem escapeFile_meta (h : isMeta c = true) : escapeFile [c] = ['\\', c] :=
  forall_isMeta (p := fun c => escapeFile [c] = ['\\', c]) h ⟨rfl, rfl, rfl⟩

theorem escapeFile_escapable (h : isEscapable c = true) (hslash : c ≠ '\\') :
    escapeFile [c] = ['\\', c] :=
  forall_isEscapable (p := fun c => c ≠ '\\' → escapeFile [c] = ['\\', c]) h
    ⟨fun _ => rfl, fun _ => rfl, fun _ => rfl, fun hne => absurd rfl hne⟩ hslash

theorem escapeFile_plain (h : isEscapable c = false) (hmeta : isMeta c = false) :
    escapeFile [c] = [c] := by
  simp only [isEscapable, Bool.or_eq_false_iff, decide_eq_false_iff_not] at h
  simp only [isMeta, Bool.or_eq_false_iff, decide_eq_false_iff_not] at hmeta
  rw [escapeFile, replace_other h.2, replace_other hmeta.1.1, replace_other hmeta.1.2,
    replace_other hmeta.2, replace_other h.1.2, replace_other h.1.1.2, replace_other h.1.1.1]

theorem searchPattern_cons (c : Char) (message : Text) :
    searchPattern (c :: message) =
      (if c = '\\' || isMeta c then ['\\', c] else [c]) ++ searchPattern message := by
  rw [searchPattern, List.flatMap_cons]
  rfl

theorem readFrom_escapeFile (message : Text) (done : List Word) (word : Word) (past : Text) :
    readFrom (escapeFile message ++ t) ⟨done, word, .quotes past⟩ =
      readFrom t ⟨done, word, .quotes ((searchPattern message).reverse ++ past)⟩ := by
  induction message generalizing past with
  | nil => rfl
  | cons c message ih =>
    rw [escapeFile_cons, searchPattern_cons, List.reverse_append, List.append_assoc,
      List.append_assoc]
    by_cases hslash : c = '\\'
    · -- Two pairs of backslashes stand for one pair, which is one backslash to `grep`.
      have hescapable : isEscapable '\\' = true := rfl
      rw [hslash, escapeFile_slash, List.cons_append, List.cons_append, List.cons_append,
        List.singleton_append, readFrom_escaped hescapable, readFrom_escaped hescapable]
      exact ih _
    · cases hmeta : isMeta c with
      | true =>
        have hplain : isEscapable c = false := forall_isMeta (p := fun c => isEscapable c = false) hmeta
          ⟨rfl, rfl, rfl⟩
        have hbreak : c ≠ '\n' := forall_isMeta (p := fun c => c ≠ '\n') hmeta
          ⟨by decide, by decide, by decide⟩
        rw [escapeFile_meta hmeta, Bool.or_true, if_pos rfl, List.cons_append,
          List.singleton_append, readFrom_unescaped hplain hbreak]
        exact ih _
      | false =>
        rw [Bool.or_false, if_neg (by simpa using hslash)]
        cases h : isEscapable c with
        | true =>
          rw [escapeFile_escapable h hslash, List.cons_append, List.singleton_append,
            readFrom_escaped h]
          exact ih _
        | false =>
          rw [escapeFile_plain h hmeta, List.singleton_append, readFrom_plain h]
          exact ih _

end Escaping

section Search

variable {filePath journal message : Text}

theorem searchCmd_journal (h : usesJournal filePath journal = true) :
    readCommand (searchCmd filePath journal message) =
      some [[.bare "journalctl".toList], [.bare "-m".toList],
        [.bare "MESSAGE=".toList, .quoted message]] := by
  have hstart : readFrom "journalctl -m MESSAGE=\"".toList {} =
      some ⟨[[.bare "journalctl".toList], [.bare "-m".toList]], [.bare "MESSAGE=".toList],
        .quotes []⟩ := rfl
  rw [searchCmd, if_pos h, readCommand, readFrom_append, hstart, Option.bind_some,
    readFrom_escapeJournal, readFrom_quote, List.append_nil, List.reverse_reverse]
  rfl

theorem searchCmd_file (h : usesJournal filePath journal = false) :
    readCommand (searchCmd filePath journal message) = (readCommand filePath).map fun files =>
      [.bare "grep".toList] :: [.quoted (searchPattern message)] :: files := by
  have hstart : readFrom "grep \"".toList {} =
      some ⟨[[.bare "grep".toList]], [], .quotes []⟩ := rfl
  have hblank : readFrom (' ' :: filePath)
      ⟨[[.bare "grep".toList]], [.quoted (searchPattern message)], .behind⟩ =
        readFrom filePath
          ⟨[[.bare "grep".toList], [.quoted (searchPattern message)]], [], .between⟩ := rfl
  rw [searchCmd, h, if_neg Bool.false_ne_true, readCommand, readFrom_append, hstart,
    Option.bind_some, readFrom_escapeFile, readFrom_quote, List.append_nil, List.reverse_reverse]
  change (readFrom (' ' :: filePath) _).bind finish = _
  exact (congrArg (Option.bind · finish) hblank).trans (readCommand_behind _ filePath)

/-- No message adds a command, an expansion or a word to the search for it. -/
theorem searchCmd_confined (filePath journal message : Text) :
    Confined filePath journal message where
  inJournal h := by
    refine ⟨_, searchCmd_journal h, rfl, ?_⟩
    rw [value, List.flatMap_cons, List.flatMap_cons, List.flatMap_nil, List.append_nil]
    rfl
  inFile h files hfiles := by
    rw [searchCmd_file h, hfiles]
    rfl

end Search

section Count

variable {succeeds : Text → Bool} {filePath journal : Text}

theorem checkMessages_found (messages : List Text) (r : Report)
    (h : messages.length ≤ r.foundEntries) :
    (messages.foldl (checkMessage succeeds filePath journal) r).foundEntries +
      messages.countP (fun message => !succeeds (searchCmd filePath journal message)) =
        r.foundEntries := by
  induction messages generalizing r with
  | nil => rfl
  | cons message messages ih =>
    rw [List.length_cons] at h
    rw [List.foldl_cons, List.countP_cons, checkMessage]
    cases succeeds (searchCmd filePath journal message) with
    | true =>
      have hrest := ih r (by omega)
      simpa using hrest
    | false =>
      have hrest := ih (r.miss (escape filePath journal message))
        (by simp only [Report.miss]; omega)
      simp only [Report.miss] at hrest ⊢
      simp only [Bool.false_eq_true, if_false, Bool.not_false, if_true]
      omega

theorem checkMessages_total (messages : List Text) (r : Report) :
    (messages.foldl (checkMessage succeeds filePath journal) r).totalEntries =
      r.totalEntries := by
  induction messages generalizing r with
  | nil => rfl
  | cons message messages ih =>
    rw [List.foldl_cons, ih, checkMessage]
    split
    · rfl
    · rfl

theorem checkLogs_success (messages : List Text) :
    (checkLogs succeeds filePath journal messages).success = true ↔
      messages ≠ [] ∧
        ∀ message ∈ messages, succeeds (searchCmd filePath journal message) = true := by
  have hfound : (checkLogs succeeds filePath journal messages).foundEntries +
      messages.countP (fun message => !succeeds (searchCmd filePath journal message)) =
        messages.length :=
    checkMessages_found messages ⟨messages.length, messages.length, []⟩ (Nat.le_refl _)
  have htotal : (checkLogs succeeds filePath journal messages).totalEntries = messages.length :=
    checkMessages_total messages ⟨messages.length, messages.length, []⟩
  have hnone : messages.countP (fun message => !succeeds (searchCmd filePath journal message)) = 0 ↔
      ∀ message ∈ messages, succeeds (searchCmd filePath journal message) = true := by
    simp only [List.countP_eq_zero, Bool.not_eq_true', Bool.not_eq_false]
  have hall : (checkLogs succeeds filePath journal messages).foundEntries = messages.length ↔
      messages.countP (fun message => !succeeds (searchCmd filePath journal message)) = 0 := by
    omega
  rw [Report.success, htotal, Bool.and_eq_true, decide_eq_true_eq, decide_eq_true_eq, hall, hnone,
    ne_eq, List.length_eq_zero_iff, and_comm]

end Count

end AggregatedLogging.Testing
