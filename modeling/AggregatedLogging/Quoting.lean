import AggregatedLogging.Text

/-! Commands as a shell reads them.  A text is read to the words of one simple command; there is no
reading of a text with an expansion, a substitution, an operator or an open quote in it. -/
namespace AggregatedLogging.Quoting

section Reading

inductive Segment where
  | bare (s : Text)
  | quoted (s : Text)
  deriving DecidableEq, Repr

abbrev Word := List Segment

def Segment.text : Segment → Text
  | .bare s => s
  | .quoted s => s

/-- What a command is given for a word; the patterns for files in it are left as they are. -/
def value (w : Word) : Text := w.flatMap Segment.text

/-- What the next character is a part of, and what of it has been read, latest character first. -/
inductive Mode where
  | between
  | bare (past : Text)
  | quotes (past : Text)
  | escaped (past : Text)
  | behind
  deriving DecidableEq, Repr

structure Reader where
  done : List Word := []
  word : Word := []
  mode : Mode := .between
  deriving DecidableEq, Repr

/-- The characters that stand for themselves outside of quotes, or for parts of the names of
files. -/
def isBare (c : Char) : Bool :=
  c.isAlphanum || c = '/' || c = '.' || c = '_' || c = '-' || c = '=' || c = '*'

/-- A backslash in quotes is special in front of these, and in front of a line break. -/
def isEscapable (c : Char) : Bool := c = '$' || c = '`' || c = '"' || c = '\\'

def isBlank (c : Char) : Bool := c = ' ' || c = '\t'

def Reader.close (r : Reader) : Reader := ⟨r.done ++ [r.word], [], .between⟩

def Reader.add (part : Segment) (m : Mode) (r : Reader) : Reader := ⟨r.done, r.word ++ [part], m⟩

def Reader.enter (c : Char) (r : Reader) : Option Reader :=
  if c = '"' then some { r with mode := .quotes [] }
  else if isBare c then some { r with mode := .bare [c] }
  else none

def step (c : Char) (r : Reader) : Option Reader :=
  match r.mode with
  | .between => if isBlank c then some r else r.enter c
  | .behind => if isBlank c then some r.close else r.enter c
  | .bare past =>
    if isBare c then some { r with mode := .bare (c :: past) }
    else if isBlank c then some (r.add (.bare past.reverse) .behind).close
    else (r.add (.bare past.reverse) .behind).enter c
  | .quotes past =>
    if c = '"' then some (r.add (.quoted past.reverse) .behind)
    else if c = '\\' then some { r with mode := .escaped past }
    else if c = '$' || c = '`' then none
    else some { r with mode := .quotes (c :: past) }
  | .escaped past =>
    if c = '\n' then some { r with mode := .quotes past }
    else if isEscapable c then some { r with mode := .quotes (c :: past) }
    else some { r with mode := .quotes (c :: '\\' :: past) }

def readFrom : Text → Reader → Option Reader
  | [], r => some r
  | c :: s, r => (step c r).bind (readFrom s)

def finish (r : Reader) : Option (List Word) :=
  match r.mode with
  | .between => some r.done
  | .behind => some r.close.done
  | .bare past => some (r.add (.bare past.reverse) .behind).close.done
  | _ => none

def readCommand (s : Text) : Option (List Word) := (readFrom s {}).bind finish

end Reading

section Rules

variable {c : Char} {t : Text} {r : Reader}

theorem readFrom_cons (c : Char) (t : Text) (r : Reader) :
    readFrom (c :: t) r = (step c r).bind (readFrom t) := rfl

theorem readFrom_append (s t : Text) (r : Reader) :
    readFrom (s ++ t) r = (readFrom s r).bind (readFrom t) := by
  induction s generalizing r with
  | nil => rfl
  | cons c s ih =>
    rw [List.cons_append, readFrom_cons, readFrom_cons, Option.bind_assoc]
    apply congrArg
    funext q
    exact ih q

theorem readFrom_escaped (h : isEscapable c = true) (done : List Word) (word : Word) (past : Text) :
    readFrom ('\\' :: c :: t) ⟨done, word, .quotes past⟩ =
      readFrom t ⟨done, word, .quotes (c :: past)⟩ := by
  have hbreak : c ≠ '\n' := by
    intro hc
    rw [hc] at h
    contradiction
  have hslash : step '\\' ⟨done, word, .quotes past⟩ = some ⟨done, word, .escaped past⟩ := rfl
  have hchar : step c ⟨done, word, .escaped past⟩ = some ⟨done, word, .quotes (c :: past)⟩ := by
    rw [step]
    dsimp only
    rw [if_neg hbreak, if_pos h]
  rw [readFrom_cons, hslash, Option.bind_some, readFrom_cons, hchar, Option.bind_some]

theorem readFrom_unescaped (h : isEscapable c = false) (hbreak : c ≠ '\n') (done : List Word)
    (word : Word) (past : Text) :
    readFrom ('\\' :: c :: t) ⟨done, word, .quotes past⟩ =
      readFrom t ⟨done, word, .quotes (c :: '\\' :: past)⟩ := by
  have hslash : step '\\' ⟨done, word, .quotes past⟩ = some ⟨done, word, .escaped past⟩ := rfl
  have hchar : step c ⟨done, word, .escaped past⟩ =
      some ⟨done, word, .quotes (c :: '\\' :: past)⟩ := by
    rw [step]
    dsimp only
    rw [if_neg hbreak, h, if_neg Bool.false_ne_true]
  rw [readFrom_cons, hslash, Option.bind_some, readFrom_cons, hchar, Option.bind_some]

theorem readFrom_plain (h : isEscapable c = false) (done : List Word) (word : Word) (past : Text) :
    readFrom (c :: t) ⟨done, word, .quotes past⟩ =
      readFrom t ⟨done, word, .quotes (c :: past)⟩ := by
  simp only [isEscapable, Bool.or_eq_false_iff, decide_eq_false_iff_not] at h
  have hchar : step c ⟨done, word, .quotes past⟩ = some ⟨done, word, .quotes (c :: past)⟩ := by
    rw [step]
    dsimp only
    rw [if_neg h.1.2, if_neg h.2, if_neg]
    simp [h.1.1.1, h.1.1.2]
  rw [readFrom_cons, hchar, Option.bind_some]

theorem readFrom_quote (done : List Word) (word : Word) (past : Text) :
    readFrom ('"' :: t) ⟨done, word, .quotes past⟩ =
      readFrom t ⟨done, word ++ [Segment.quoted past.reverse], .behind⟩ := rfl

def Reader.prepend (ws : List Word) (r : Reader) : Reader := { r with done := ws ++ r.done }

theorem close_prepend (ws : List Word) (r : Reader) :
    (r.prepend ws).close = r.close.prepend ws := by
  rw [Reader.close, Reader.prepend, List.append_assoc]
  rfl

theorem enter_prepend (ws : List Word) (c : Char) (r : Reader) :
    (r.prepend ws).enter c = (r.enter c).map (Reader.prepend ws) := by
  rw [Reader.enter, Reader.enter]
  split
  · rfl
  · split
    · rfl
    · rfl

/-- What has been read is not looked at any more. -/
theorem step_prepend (ws : List Word) (c : Char) (r : Reader) :
    step c (r.prepend ws) = (step c r).map (Reader.prepend ws) := by
  cases r with
  | mk done word mode =>
    cases mode with
    | between =>
      change (if isBlank c then some _
        else Reader.enter c (Reader.prepend ws ⟨done, word, .between⟩)) =
          Option.map _ (if isBlank c then _ else _)
      split
      · rfl
      · exact enter_prepend ws c _
    | behind =>
      change (if isBlank c then some (Reader.close (Reader.prepend ws ⟨done, word, .behind⟩))
        else Reader.enter c (Reader.prepend ws ⟨done, word, .behind⟩)) =
          Option.map _ (if isBlank c then _ else _)
      split
      · rw [close_prepend]
        rfl
      · exact enter_prepend ws c _
    | bare past =>
      change (if isBare c then _ else if isBlank c then
        some (Reader.close (Reader.prepend ws ⟨done, word ++ [Segment.bare past.reverse], .behind⟩))
          else Reader.enter c (Reader.prepend ws ⟨done, word ++ [Segment.bare past.reverse], .behind⟩)) =
            Option.map _ (if isBare c then _ else if isBlank c then _ else _)
      split
      · rfl
      · split
        · rw [close_prepend]
          rfl
        · exact enter_prepend ws c _
    | quotes past =>
      change (if c = '"' then _ else if c = '\\' then _ else if c = '$' || c = '`' then _ else _) =
        Option.map _ (if c = '"' then _ else if c = '\\' then _
          else if c = '$' || c = '`' then _ else _)
      split
      · rfl
      · split
        · rfl
        · split
          · rfl
          · rfl
    | escaped past =>
      change (if c = '\n' then _ else if isEscapable c then _ else _) =
        Option.map _ (if c = '\n' then _ else if isEscapable c then _ else _)
      split
      · rfl
      · split
        · rfl
        · rfl

theorem readFrom_prepend (ws : List Word) (s : Text) (r : Reader) :
    readFrom s (r.prepend ws) = (readFrom s r).map (Reader.prepend ws) := by
  induction s generalizing r with
  | nil => rfl
  | cons c s ih =>
    rw [readFrom_cons, readFrom_cons, step_prepend]
    cases step c r with
    | none => rfl
    | some q => exact ih q

theorem finish_prepend (ws : List Word) (r : Reader) :
    finish (r.prepend ws) = (finish r).map fun done => ws ++ done := by
  cases r with
  | mk done word mode =>
    cases mode with
    | between => rfl
    | behind =>
      change some (Reader.close (Reader.prepend ws ⟨done, word, .behind⟩)).done = _
      rw [close_prepend]
      rfl
    | bare past =>
      change some (Reader.close
        (Reader.prepend ws ⟨done, word ++ [Segment.bare past.reverse], .behind⟩)).done = _
      rw [close_prepend]
      rfl
    | quotes past => rfl
    | escaped past => rfl

/-- Behind words that are complete, the rest is read as a command of its own. -/
theorem readCommand_behind (ws : List Word) (s : Text) :
    (readFrom s ⟨ws, [], .between⟩).bind finish = (readCommand s).map fun rest => ws ++ rest := by
  have hstart : (⟨ws, [], .between⟩ : Reader) = Reader.prepend ws {} := by
    rw [Reader.prepend, List.append_nil]
  rw [hstart, readFrom_prepend, readCommand]
  cases readFrom s {} with
  | none => rfl
  | some r => exact finish_prepend ws r

theorem readFrom_bare {s : Text} (h : s.all isBare = true) (done : List Word) (word : Word)
    (past : Text) :
    readFrom s ⟨done, word, .bare past⟩ = some ⟨done, word, .bare (s.reverse ++ past)⟩ := by
  induction s generalizing past with
  | nil => rfl
  | cons c s ih =>
    rw [List.all_cons, Bool.and_eq_true] at h
    have hchar : step c ⟨done, word, .bare past⟩ = some ⟨done, word, .bare (c :: past)⟩ := by
      rw [step]
      exact if_pos h.1
    rw [readFrom_cons, hchar, Option.bind_some, ih h.2, List.reverse_cons, List.append_assoc]
    rfl

theorem readCommand_bare {s : Text} (h : s.all isBare = true) (hne : s ≠ []) :
    readCommand s = some [[.bare s]] := by
  cases s with
  | nil => contradiction
  | cons c s =>
    rw [List.all_cons, Bool.and_eq_true] at h
    have hblank : isBlank c = false := by
      rw [← Bool.not_eq_true]
      intro hblank
      simp only [isBlank, Bool.or_eq_true, decide_eq_true_eq] at hblank
      rcases hblank with hc | hc
      · rw [hc] at h
        exact absurd h.1 (by decide)
      · rw [hc] at h
        exact absurd h.1 (by decide)
    have hquote : c ≠ '"' := by
      intro hc
      rw [hc] at h
      exact absurd h.1 (by decide)
    have hchar : step c {} = some ⟨[], [], .bare [c]⟩ := by
      rw [step]
      dsimp only
      rw [hblank, if_neg Bool.false_ne_true, Reader.enter, if_neg hquote, if_pos h.1]
    have hword : ((s.reverse ++ [c]).reverse : Text) = c :: s := by simp
    rw [readCommand, readFrom_cons, hchar, Option.bind_some, readFrom_bare h.2, Option.bind_some]
    change some [[Segment.bare (s.reverse ++ [c]).reverse]] = _
    rw [hword]

end Rules

end AggregatedLogging.Quoting
