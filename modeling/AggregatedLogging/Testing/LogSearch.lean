import AggregatedLogging.Regex.Basic
import AggregatedLogging.Testing.CheckLogs

/-! The search of a log file for a message.  What quotes leave of the message is a basic regular
expression, and not every character of the message stands for itself there. -/
namespace AggregatedLogging.Testing

open Quoting Regex

section Search

/-- A command with this character in it is not run. -/
def nul : Char := Char.ofNat 0

/-- The path of a log file, one word of plain characters that is not taken for an option. -/
structure LogPath where
  text : Text
  bare : text.all isBare = true
  start : text.head?.any (fun c => c ≠ '-' && c ≠ '*') = true

def exits (log : Text) : List Word → Bool
  | [] => true
  | name :: args => value name = "grep".toList && grep (fun _ => some log) (args.map value)

def succeeds (log searchCmd : Text) : Bool :=
  !searchCmd.contains nul && (readCommand searchCmd).any (exits log)

def FindsMessage (path : LogPath) (journal message : Text) : Prop :=
  ∀ log, succeeds log (searchCmd path.text journal message) = true ↔
    ∃ line ∈ fileLines log, message <:+: line

structure Literal (message : Text) : Prop where
  noNul : nul ∉ message
  noDot : '.' ∉ message
  noCaret : message.head? ≠ some '^'
  noDollar : message.getLast? ≠ some '$'
  noDash : message.head? = some '-' → message = ['-']

end Search

section Expression

def messageParts : Place → Text → List Node
  | _, [] => []
  | place, c :: message =>
    if c = '^' ∧ place = .front then .atom (.at .textStart) :: messageParts .behindCaret message
    else if c = '$' ∧ message = [] then [.atom (.at .textEnd)]
    else if c = '.' then .atom .dot :: messageParts .inside message
    else .atom (.lit c) :: messageParts .inside message

def foundLine : Place → Text → Text
  | _, [] => []
  | place, c :: message =>
    if c = '^' ∧ place = .front then foundLine .behindCaret message
    else if c = '$' ∧ message = [] then []
    else if c = '.' then 'x' :: foundLine .inside message
    else c :: foundLine .inside message

variable {c : Char} {message : Text} {place : Place}

/-- What a character of a message is in the expression. -/
inductive Standing (place : Place) (message : Text) : Char → Prop where
  | start (h : place = .front) : Standing place message '^'
  | stop (h : message = []) : Standing place message '$'
  | any : Standing place message '.'
  | itself {c : Char} (hcaret : ¬ (c = '^' ∧ place = .front))
      (hdollar : ¬ (c = '$' ∧ message = [])) (hdot : c ≠ '.') : Standing place message c

theorem standing (place : Place) (message : Text) (c : Char) : Standing place message c := by
  by_cases hcaret : c = '^' ∧ place = .front
  · rw [hcaret.1]
    exact .start hcaret.2
  · by_cases hdollar : c = '$' ∧ message = []
    · rw [hdollar.1]
      exact .stop hdollar.2
    · by_cases hdot : c = '.'
      · rw [hdot]
        exact .any
      · exact .itself hcaret hdollar hdot

theorem messageParts_start : messageParts .front ('^' :: message) =
    .atom (.at .textStart) :: messageParts .behindCaret message := by
  rw [messageParts, if_pos ⟨rfl, rfl⟩]

theorem messageParts_stop : messageParts place ['$'] = [.atom (.at .textEnd)] := by
  rw [messageParts, if_neg fun h => absurd h.1 (by decide), if_pos ⟨rfl, rfl⟩]

theorem messageParts_any :
    messageParts place ('.' :: message) = .atom .dot :: messageParts .inside message := by
  rw [messageParts, if_neg fun h => absurd h.1 (by decide),
    if_neg fun h => absurd h.1 (by decide), if_pos rfl]

theorem messageParts_itself (hcaret : ¬ (c = '^' ∧ place = .front))
    (hdollar : ¬ (c = '$' ∧ message = [])) (hdot : c ≠ '.') :
    messageParts place (c :: message) = .atom (.lit c) :: messageParts .inside message := by
  rw [messageParts, if_neg hcaret, if_neg hdollar, if_neg hdot]

theorem foundLine_start :
    foundLine .front ('^' :: message) = foundLine .behindCaret message := by
  rw [foundLine, if_pos ⟨rfl, rfl⟩]

theorem foundLine_stop : foundLine place ['$'] = [] := by
  rw [foundLine, if_neg fun h => absurd h.1 (by decide), if_pos ⟨rfl, rfl⟩]

theorem foundLine_any : foundLine place ('.' :: message) = 'x' :: foundLine .inside message := by
  rw [foundLine, if_neg fun h => absurd h.1 (by decide),
    if_neg fun h => absurd h.1 (by decide), if_pos rfl]

theorem foundLine_itself (hcaret : ¬ (c = '^' ∧ place = .front))
    (hdollar : ¬ (c = '$' ∧ message = [])) (hdot : c ≠ '.') :
    foundLine place (c :: message) = c :: foundLine .inside message := by
  rw [foundLine, if_neg hcaret, if_neg hdollar, if_neg hdot]

theorem searchPattern_eq_nil : searchPattern message = [] ↔ message = [] := by
  cases message with
  | nil => simp [searchPattern]
  | cons c message =>
    rw [searchPattern_cons]
    split
    · simp
    · simp

theorem basicFrom_itself {done : List Node} (hplace : place ≠ .behindSlash)
    (hcaret : ¬ (c = '^' ∧ place = .front)) (hdollar : ¬ (c = '$' ∧ message = []))
    (hdot : c ≠ '.') :
    basicFrom place done (searchPattern (c :: message)) =
      basicFrom .inside (.atom (.lit c) :: done) (searchPattern message) := by
  rw [searchPattern_cons]
  cases hquoted : (c = '\\' || isMeta c) with
  | true =>
    have hquotable : isQuotable c = true := by
      rw [Bool.or_eq_true, decide_eq_true_eq] at hquoted
      rcases hquoted with hslash | hmeta
      · rw [hslash]
        rfl
      · exact forall_isMeta (p := fun c => isQuotable c = true) hmeta ⟨rfl, rfl, rfl⟩
    exact basicFrom_quoted hplace hquotable
  | false =>
    simp only [isMeta, Bool.or_eq_false_iff, decide_eq_false_iff_not] at hquoted
    have hend : ¬ (c = '$' ∧ searchPattern message = []) := by
      rw [searchPattern_eq_nil]
      exact hdollar
    exact basicFrom_plain hplace hquoted.1 hcaret hend hquoted.2.2 hquoted.2.1.1 hdot

theorem basicFrom_searchPattern (message : Text) (hplace : place ≠ .behindSlash)
    (done : List Node) :
    basicFrom place done (searchPattern message) =
      some (done.reverse ++ messageParts place message) := by
  induction message generalizing place done with
  | nil =>
    rw [messageParts, List.append_nil]
    exact if_neg hplace
  | cons c message ih =>
    have hrest (next : Place) (hnext : next ≠ .behindSlash) (a : Node) :
        basicFrom next (a :: done) (searchPattern message) =
          some (done.reverse ++ a :: messageParts next message) := by
      rw [ih hnext, List.reverse_cons, List.append_assoc]
      rfl
    cases standing place message c with
    | start h =>
      rw [h, messageParts_start, ← hrest .behindCaret (by decide)]
      exact basicFrom_caret
    | stop h =>
      rw [h, messageParts_stop, ← List.reverse_cons]
      exact basicFrom_dollar hplace
    | any =>
      rw [messageParts_any, ← hrest .inside (by decide)]
      exact basicFrom_dot hplace
    | itself hcaret hdollar hdot =>
      rw [messageParts_itself hcaret hdollar hdot, basicFrom_itself hplace hcaret hdollar hdot,
        hrest .inside (by decide)]

def messagePattern (message : Text) : Pattern :=
  ⟨basicNode (messageParts .front message), 0, [], {}⟩

theorem compileBasic_searchPattern (message : Text) :
    compileBasic (searchPattern message) = some (messagePattern message) := by
  rw [compileBasic, basicFrom_searchPattern message (by decide)]
  rfl

end Expression

section Found

variable {c : Char} {message : Text} {place : Place}

theorem basicNode_run {a : Node} {parts : List Node} {s t : State} (h : t ∈ a.run {} s)
    (hparts : (basicNode parts).run {} t ≠ []) : (basicNode (a :: parts)).run {} s ≠ [] := by
  intro hnil
  change List.flatMap ((basicNode parts).run {}) (a.run {} s) = [] at hnil
  rw [List.flatMap_eq_nil_iff] at hnil
  exact hparts (hnil t h)

theorem foundLine_run (message past : Text) (captures : Captures)
    (hpast : place = .front → past = []) :
    (basicNode (messageParts place message)).run {} ⟨⟨past, foundLine place message⟩, captures⟩ ≠
      [] := by
  induction message generalizing place past with
  | nil =>
    rw [messageParts]
    exact List.cons_ne_nil _ _
  | cons c message ih =>
    have hinside (d : Char) := @ih .inside (d :: past) fun h => absurd h (by decide)
    cases standing place message c with
    | start h =>
      rw [hpast h, h, messageParts_start, foundLine_start]
      apply basicNode_run _ (ih [] fun _ => rfl)
      exact List.mem_singleton_self _
    | stop h =>
      rw [h, messageParts_stop, foundLine_stop]
      exact List.cons_ne_nil _ _
    | any =>
      rw [messageParts_any, foundLine_any]
      apply basicNode_run _ (hinside 'x')
      exact List.mem_singleton_self _
    | itself hcaret hdollar hdot =>
      rw [messageParts_itself hcaret hdollar hdot, foundLine_itself hcaret hdollar hdot]
      apply basicNode_run _ (hinside c)
      simp [Node.run, Atom.run, State.eat, sameChar]

theorem messagePattern_found (message : Text) :
    (messagePattern message).found (foundLine .front message) = true := by
  rw [Pattern.found_behind]
  refine ⟨[], foundLine .front message, rfl, ?_⟩
  exact foundLine_run message [] _ fun _ => rfl

theorem length_foundLine (place : Place) (message : Text) :
    (foundLine place message).length ≤ message.length := by
  induction message generalizing place with
  | nil => exact Nat.le_refl _
  | cons c message ih =>
    have hcaret := ih .behindCaret
    have hinside := ih .inside
    cases standing place message c with
    | start h =>
      rw [h, foundLine_start, List.length_cons]
      omega
    | stop h =>
      rw [h, foundLine_stop]
      exact Nat.zero_le _
    | any =>
      rw [foundLine_any, List.length_cons, List.length_cons]
      omega
    | itself hcaret hdollar hdot =>
      rw [foundLine_itself hcaret hdollar hdot, List.length_cons, List.length_cons]
      omega

theorem foundLine_ne_cons (place : Place) (message : Text) (c : Char) :
    foundLine place message ≠ c :: message := by
  intro h
  have hlength := length_foundLine place message
  rw [h, List.length_cons] at hlength
  omega

theorem foundLine_eq_self_iff (place : Place) (message : Text) :
    foundLine place message = message ↔ '.' ∉ message ∧
      (place = .front → message.head? ≠ some '^') ∧ message.getLast? ≠ some '$' := by
  induction message generalizing place with
  | nil => simp [foundLine]
  | cons c message ih =>
    cases standing place message c with
    | start h =>
      simp [h, foundLine_start, foundLine_ne_cons]
    | stop h =>
      simp [h, foundLine_stop]
    | any =>
      simp [foundLine_any]
    | itself hcaret hdollar hdot =>
      have hlast : (c :: message).getLast? ≠ some '$' ↔ message.getLast? ≠ some '$' := by
        cases message with
        | nil => simpa using hdollar
        | cons d message => rw [List.getLast?_cons_cons]
      have hhead : place = .front → (c :: message).head? ≠ some '^' := by
        intro hplace hc
        exact hcaret ⟨Option.some.inj hc, hplace⟩
      have hnot : '.' ∉ c :: message ↔ '.' ∉ message := by
        simp [Ne.symm hdot]
      have hrest : foundLine .inside message = message ↔
          '.' ∉ message ∧ message.getLast? ≠ some '$' := by
        rw [ih .inside]
        simp
      rw [foundLine_itself hcaret hdollar hdot, List.cons_inj_right, hrest, hlast, hnot]
      constructor
      · intro h
        exact ⟨h.1, hhead, h.2⟩
      · intro h
        exact ⟨h.1, h.2.2⟩

theorem messageParts_of_foundLine (place : Place) (h : foundLine place message = message) :
    messageParts place message = message.map fun c => .atom (.lit c) := by
  induction message generalizing place with
  | nil => rfl
  | cons c message ih =>
    cases standing place message c with
    | start hplace =>
      rw [hplace, foundLine_start] at h
      exact absurd h (foundLine_ne_cons _ _ _)
    | stop hnil =>
      rw [hnil, foundLine_stop] at h
      contradiction
    | any =>
      rw [foundLine_any] at h
      exact absurd (List.cons.inj h).1 (by decide)
    | itself hcaret hdollar hdot =>
      rw [foundLine_itself hcaret hdollar hdot] at h
      rw [messageParts_itself hcaret hdollar hdot, ih .inside (List.cons.inj h).2, List.map_cons]

theorem messagePattern_literal (h : foundLine .front message = message) (line : Text) :
    (messagePattern message).found line = true ↔ message <:+: line := by
  apply Pattern.found_lits _ rfl
  rw [messagePattern, messageParts_of_foundLine .front h, basicNode_lits]

end Found

section Outcome

variable {path : LogPath} {journal message log : Text}

theorem mem_replace {x old : Char} {new : Text} (hold : x ≠ old) (hnew : x ∉ new) (s : Text) :
    x ∈ replace s old new ↔ x ∈ s := by
  induction s with
  | nil => rfl
  | cons c s ih =>
    rw [replace_cons, List.mem_append, ih, List.mem_cons]
    by_cases hc : c = old
    · have hx : x ≠ c := by
        rw [hc]
        exact hold
      rw [if_pos hc]
      simp [hnew, hx]
    · rw [if_neg hc, List.mem_singleton]

theorem nul_mem_escapeFile (message : Text) : nul ∈ escapeFile message ↔ nul ∈ message := by
  rw [escapeFile, mem_replace (by decide) (by decide), mem_replace (by decide) (by decide),
    mem_replace (by decide) (by decide), mem_replace (by decide) (by decide),
    mem_replace (by decide) (by decide), mem_replace (by decide) (by decide),
    mem_replace (by decide) (by decide)]

theorem LogPath.nul_not_mem (path : LogPath) : nul ∉ path.text := by
  intro h
  have hbare := List.all_eq_true.mp path.bare nul h
  exact absurd hbare (by decide)

theorem nul_mem_searchCmd (hbranch : usesJournal path.text journal = false) :
    nul ∈ searchCmd path.text journal message ↔ nul ∈ message := by
  have hstart : (nul ∈ "grep \"".toList) = False := eq_false (by decide)
  have hquote : (nul = '"') = False := eq_false (by decide)
  have hblank : (nul = ' ') = False := eq_false (by decide)
  have hpath : (nul ∈ path.text) = False := eq_false path.nul_not_mem
  rw [searchCmd, hbranch, if_neg Bool.false_ne_true, List.mem_append, List.mem_append,
    nul_mem_escapeFile, List.mem_cons, List.mem_cons, hstart, hquote, hblank, hpath, false_or,
    or_false, or_false, or_false]

theorem LogPath.operand (path : LogPath) : isOperand path.text = true := by
  have hstart := path.start
  cases htext : path.text with
  | nil =>
    rw [htext] at hstart
    contradiction
  | cons c s =>
    rw [htext] at hstart
    simp only [List.head?_cons, Option.any_some, Bool.and_eq_true, decide_eq_true_eq] at hstart
    simp [isOperand, hstart.1]

theorem LogPath.readCommand_text (path : LogPath) :
    readCommand path.text = some [[.bare path.text]] := by
  apply readCommand_bare path.bare
  intro h
  have hstart := path.start
  rw [h] at hstart
  contradiction

theorem succeeds_searchCmd (hbranch : usesJournal path.text journal = false)
    (hnul : nul ∉ message) :
    succeeds log (searchCmd path.text journal message) =
      grep (fun _ => some log) [searchPattern message, path.text] := by
  have hcmd : (searchCmd path.text journal message).contains nul = false := by
    rw [List.contains_eq_mem, decide_eq_false_iff_not, nul_mem_searchCmd hbranch]
    exact hnul
  have hvalue (s : Text) : value [.bare s] = s ∧ value [.quoted s] = s := by
    simp [value, Segment.text]
  rw [succeeds, hcmd, searchCmd_file hbranch, path.readCommand_text]
  change (decide (value [.bare "grep".toList] = "grep".toList) && grep (fun _ => some log)
    [value [.quoted (searchPattern message)], value [.bare path.text]]) = _
  rw [(hvalue _).1, (hvalue _).1, (hvalue _).2, decide_eq_true rfl, Bool.true_and]

theorem isOperand_searchPattern : isOperand (searchPattern message) = true ↔
    (message.head? = some '-' → message = ['-']) := by
  cases message with
  | nil => simp [searchPattern, isOperand]
  | cons c message =>
    by_cases hdash : c = '-'
    · have hpattern : searchPattern (c :: message) = '-' :: searchPattern message := by
        rw [searchPattern_cons, hdash]
        rfl
      rw [hpattern, hdash]
      simp [isOperand, searchPattern_eq_nil]
    · have hhead : (searchPattern (c :: message)).head? ≠ some '-' := by
        rw [searchPattern_cons]
        split
        · simp
        · simpa using hdash
      simp [isOperand, hhead, hdash]

theorem not_succeeds_option (hbranch : usesJournal path.text journal = false)
    (hnul : nul ∉ message) (h : isOperand (searchPattern message) = false) :
    succeeds log (searchCmd path.text journal message) = false := by
  rw [succeeds_searchCmd hbranch hnul]
  exact grep_option h path.operand

theorem succeeds_expression (hbranch : usesJournal path.text journal = false)
    (hnul : nul ∉ message) (h : isOperand (searchPattern message) = true) :
    succeeds log (searchCmd path.text journal message) =
      (fileLines log).any (messagePattern message).found := by
  rw [succeeds_searchCmd hbranch hnul]
  exact grep_expression h path.operand rfl (compileBasic_searchPattern message)

theorem not_succeeds_nul (hbranch : usesJournal path.text journal = false) (h : nul ∈ message) :
    succeeds log (searchCmd path.text journal message) = false := by
  have hcmd : (searchCmd path.text journal message).contains nul = true := by
    rw [List.contains_eq_mem, decide_eq_true_eq, nul_mem_searchCmd hbranch]
    exact h
  rw [succeeds, hcmd]
  rfl

end Outcome

section Claim

variable {path : LogPath} {journal message : Text}

theorem FindsMessage.self (h : FindsMessage path journal message) (hline : '\n' ∉ message) :
    succeeds (message ++ ['\n']) (searchCmd path.text journal message) = true := by
  apply (h _).mpr
  rw [fileLines_single hline]
  exact ⟨message, List.mem_singleton_self _, List.infix_refl _⟩

theorem not_mem_foundLine (hline : '\n' ∉ message) (place : Place) :
    '\n' ∉ foundLine place message := by
  induction message generalizing place with
  | nil => exact hline
  | cons c message ih =>
    rw [List.mem_cons, not_or] at hline
    have hrest := ih hline.2
    cases standing place message c with
    | start h =>
      rw [h, foundLine_start]
      exact hrest _
    | stop h =>
      rw [h, foundLine_stop]
      exact List.not_mem_nil
    | any =>
      rw [foundLine_any, List.mem_cons, not_or]
      exact ⟨by decide, hrest _⟩
    | itself hcaret hdollar hdot =>
      rw [foundLine_itself hcaret hdollar hdot, List.mem_cons, not_or]
      exact ⟨hline.1, hrest _⟩

/-- The log that the expression is found in has the message for a line of its own length at most. -/
theorem FindsMessage.foundLine_eq (h : FindsMessage path journal message)
    (hbranch : usesJournal path.text journal = false) (hline : '\n' ∉ message)
    (hnul : nul ∉ message) (hoperand : isOperand (searchPattern message) = true) :
    foundLine .front message = message := by
  have hlines := fileLines_single (not_mem_foundLine hline .front)
  have hfound : succeeds (foundLine .front message ++ ['\n'])
      (searchCmd path.text journal message) = true := by
    rw [succeeds_expression hbranch hnul hoperand, hlines, List.any_cons, messagePattern_found]
    rfl
  obtain ⟨line, hmem, hpart⟩ := (h _).mp hfound
  rw [hlines, List.mem_singleton] at hmem
  rw [hmem] at hpart
  have hlength := length_foundLine .front message
  exact (hpart.eq_of_length (Nat.le_antisymm hpart.length_le hlength)).symm

/-- The search for a message is literal when the message is. -/
theorem findsMessage_iff (path : LogPath) (journal : Text) {message : Text}
    (hbranch : usesJournal path.text journal = false) (hline : '\n' ∉ message) :
    FindsMessage path journal message ↔ Literal message := by
  constructor
  · intro h
    have hself := h.self hline
    have hnul : nul ∉ message := by
      intro hnul
      rw [not_succeeds_nul hbranch hnul] at hself
      contradiction
    have hoperand : isOperand (searchPattern message) = true := by
      rw [← Bool.not_eq_false]
      intro hoption
      rw [not_succeeds_option hbranch hnul hoption] at hself
      contradiction
    have hplain := (foundLine_eq_self_iff .front message).mp
      (h.foundLine_eq hbranch hline hnul hoperand)
    exact ⟨hnul, hplain.1, hplain.2.1 rfl, hplain.2.2, isOperand_searchPattern.mp hoperand⟩
  · intro h log
    have hself : foundLine .front message = message :=
      (foundLine_eq_self_iff .front message).mpr ⟨h.noDot, fun _ => h.noCaret, h.noDollar⟩
    rw [succeeds_expression hbranch h.noNul (isOperand_searchPattern.mpr h.noDash),
      List.any_eq_true]
    simp only [messagePattern_literal hself]

def containerLog : LogPath where
  text := "/var/log/containers/es_logging_es.log".toList
  bare := by decide
  start := by decide

theorem findsMessage_special :
    FindsMessage containerLog [] "GET [a-z]* \"$x\" ^ \\(`id`\\)".toList := by
  apply (findsMessage_iff containerLog [] (by decide) (by decide)).mpr
  exact ⟨by decide, by decide, by decide, by decide, by decide⟩

/-- A dot of the message is found in any character. -/
theorem not_findsMessage_dot : ¬ FindsMessage containerLog [] "10.0".toList := by
  intro h
  have hfound :
      succeeds "10x0\n".toList (searchCmd containerLog.text [] "10.0".toList) = true := by
    decide +kernel
  have hother : ∀ line ∈ fileLines "10x0\n".toList, ¬ "10.0".toList <:+: line := by
    have hlines : fileLines "10x0\n".toList = ["10x0".toList] := @fileLines_single "10x0".toList (by decide)
    rw [hlines]
    intro line hmem
    rw [List.mem_singleton.mp hmem]
    decide
  obtain ⟨line, hmem, hpart⟩ := (h _).mp hfound
  exact hother line hmem hpart

end Claim

end AggregatedLogging.Testing
