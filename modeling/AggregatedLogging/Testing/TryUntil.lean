import AggregatedLogging.Polling
import AggregatedLogging.ShellArithmetic

/-! The calls of `os::cmd` that repeat a command until it exits as expected, or until its output
has a text.  The output of all attempts is collected in two files. -/
namespace AggregatedLogging.Testing.TryUntil

open Polling Shell

structure Outcome where
  code : Nat
  out : Text
  err : Text
  deriving DecidableEq

section Assertions

/-- The assertions answer with the status of a negated test: 1 stands for true. -/
def successFunc (exitCode : Nat) : Nat := if exitCode ≠ 0 then 0 else 1

def failureFunc (exitCode : Nat) : Nat := if exitCode = 0 then 0 else 1

def specificCodeFunc (expectedCode : Int) (exitCode : Nat) : Nat :=
  if exitCode ≠ expectedCode then 0 else 1

end Assertions

section Files

/-- `tmp_stdout.log` and `tmp_stderr.log`. -/
structure Logs where
  out : Text := []
  err : Text := []
  deriving DecidableEq

/-- What `run_collecting_output` appends. -/
def Logs.collect (l : Logs) (o : Outcome) : Logs := ⟨l.out ++ o.out, l.err ++ o.err⟩

def separator : Char := Char.ofNat 0x1e

/-- `mark_attempt`; `echo` ends its line. -/
def Logs.markAttempt (l : Logs) : Logs :=
  ⟨l.out ++ [separator, '\n'], l.err ++ [separator, '\n']⟩

def recordsFrom (record : Text) : Text → List Text
  | [] => if record = [] then [] else [record]
  | c :: s =>
    if c = separator then record :: recordsFrom [] s else recordsFrom (record ++ [c]) s

/-- The records that `awk` reads with the separator; there is none behind the last separator. -/
def records (s : Text) : List Text := recordsFrom [] s

/-- `awk 'BEGIN { RS = "\x1e" } END { print $0 }'` -/
def lastRecord (s : Text) : Text := (records s).getLast?.getD [] ++ ['\n']

def getLastResults (l : Logs) : Text := lastRecord l.out ++ lastRecord l.err

end Files

section Loops

variable (grep : Text → Text → Outcome) (cmd : Nat → Outcome) (evalFunc : Nat → Nat)

/-- One round of `run_until_exit_code`. -/
def attemptCode (i : Nat) (l : Logs) : Bool × Logs :=
  let ran := l.collect (cmd i)
  if evalFunc (cmd i).code ≠ 0 then (true, ran) else (false, ran.markAttempt)

/-- One round of `run_until_text`; what `grep` writes goes into the files, too. -/
def attemptText (text : Text) (i : Nat) (l : Logs) : Bool × Logs :=
  let ran := l.collect (cmd i)
  let found := grep text (getLastResults ran)
  let searched := ran.collect found
  if evalFunc found.code ≠ 0 then (true, searched) else (false, searched.markAttempt)

variable (now : Nat → Int) (start duration : Int)

/-- `[ $(date +%s000) -lt $deadline ]` before the attempt `i`. -/
def timeLeft (i : Nat) : Bool := now i < wrap (start + duration)

/-- The status of a call and the files behind it, when it ends within `n` rounds. -/
def runUntil (attempt : Nat → Logs → Bool × Logs) (n : Nat) : Option (Nat × Logs) :=
  (poll (timeLeft now start duration) attempt n 0 {}).map fun r => (if r.1 then 0 else 1, r.2)

def runUntilExitCode (n : Nat) : Option (Nat × Logs) :=
  runUntil now start duration (attemptCode cmd evalFunc) n

def runUntilText (text : Text) (n : Nat) : Option (Nat × Logs) :=
  runUntil now start duration (attemptText grep cmd evalFunc text) n

end Loops

section Results

variable {grep : Text → Text → Outcome} {cmd : Nat → Outcome} {evalFunc : Nat → Nat}

def markEnd : Nat → Text
  | 0 => []
  | _ + 1 => ['\n']

/-- What an attempt itself has written, as it is searched for the text. -/
def ownResults (cmd : Nat → Outcome) (i : Nat) : Text :=
  lastRecord (markEnd i ++ (cmd i).out) ++ lastRecord (markEnd i ++ (cmd i).err)

def Marked : Nat → Text → Prop
  | 0, s => s = []
  | _ + 1, s => ∃ u, s = u ++ [separator, '\n']

structure LogsMarked (i : Nat) (l : Logs) : Prop where
  out : Marked i l.out
  err : Marked i l.err

theorem recordsFrom_ne_nil {record s : Text} (h : record ++ s ≠ []) : recordsFrom record s ≠ [] := by
  induction s generalizing record with
  | nil =>
    rw [List.append_nil] at h
    rw [recordsFrom, if_neg h]
    exact List.cons_ne_nil _ _
  | cons c s ih =>
    rw [recordsFrom]
    split
    · exact List.cons_ne_nil _ _
    · exact ih (by simp)

theorem recordsFrom_separator (record u s : Text) :
    ∃ before, recordsFrom record (u ++ separator :: s) = before ++ records s := by
  induction u generalizing record with
  | nil =>
    rw [List.nil_append, recordsFrom, if_pos rfl]
    exact ⟨[record], rfl⟩
  | cons c u ih =>
    rw [List.cons_append, recordsFrom]
    split
    · obtain ⟨before, h⟩ := ih []
      exact ⟨record :: before, by rw [h]; rfl⟩
    · exact ih _

theorem lastRecord_separator (u : Text) {s : Text} (hs : s ≠ []) :
    lastRecord (u ++ separator :: s) = lastRecord s := by
  obtain ⟨before, h⟩ := recordsFrom_separator [] u s
  have hne : records s ≠ [] := recordsFrom_ne_nil hs
  rw [lastRecord, records, h, lastRecord, List.getLast?_append_of_ne_nil _ hne]

theorem Marked.lastRecord {i : Nat} {s : Text} (h : Marked i s) (t : Text) :
    lastRecord (s ++ t) = TryUntil.lastRecord (markEnd i ++ t) := by
  cases i with
  | zero => rw [show s = [] from h]; rfl
  | succ i =>
    obtain ⟨u, rfl⟩ := h
    rw [List.append_assoc]
    exact lastRecord_separator u (List.cons_ne_nil _ _)

theorem LogsMarked.markAttempt (l : Logs) (i : Nat) : LogsMarked (i + 1) l.markAttempt :=
  ⟨⟨l.out, rfl⟩, ⟨l.err, rfl⟩⟩

theorem LogsMarked.getLastResults {i : Nat} {l : Logs} (h : LogsMarked i l) :
    getLastResults (l.collect (cmd i)) = ownResults cmd i := by
  unfold TryUntil.getLastResults ownResults Logs.collect
  rw [h.out.lastRecord, h.err.lastRecord]

def found (grep : Text → Text → Outcome) (cmd : Nat → Outcome) (evalFunc : Nat → Nat)
    (text : Text) (i : Nat) : Bool :=
  evalFunc (grep text (ownResults cmd i)).code ≠ 0

theorem attemptText_eq (text : Text) {i : Nat} {l : Logs} (hl : LogsMarked i l) :
    ∃ searched, attemptText grep cmd evalFunc text i l =
      if found grep cmd evalFunc text i then (true, searched)
      else (false, searched.markAttempt) := by
  refine ⟨(l.collect (cmd i)).collect (grep text (ownResults cmd i)), ?_⟩
  change (if evalFunc (grep text (getLastResults (l.collect (cmd i)))).code ≠ 0 then
    (true, (l.collect (cmd i)).collect (grep text (getLastResults (l.collect (cmd i)))))
    else (false, ((l.collect (cmd i)).collect
      (grep text (getLastResults (l.collect (cmd i))))).markAttempt)) = _
  rw [hl.getLastResults, found]
  by_cases h : evalFunc (grep text (ownResults cmd i)).code ≠ 0
  · rw [if_pos h, decide_eq_true h]
    rfl
  · rw [if_neg h, decide_eq_false h]
    rfl

theorem decides_attemptText (grep : Text → Text → Outcome) (cmd : Nat → Outcome)
    (evalFunc : Nat → Nat) (text : Text) :
    Decides (attemptText grep cmd evalFunc text) (found grep cmd evalFunc text) LogsMarked where
  result := by
    intro i l hl
    obtain ⟨searched, h⟩ := attemptText_eq text hl
    rw [h]
    cases found grep cmd evalFunc text i <;> rfl
  next := by
    intro i l hl hfailed
    obtain ⟨searched, h⟩ := attemptText_eq text hl
    rw [h, hfailed]
    exact LogsMarked.markAttempt searched i

theorem decides_attemptCode (cmd : Nat → Outcome) (evalFunc : Nat → Nat) :
    Decides (attemptCode cmd evalFunc) (fun i => evalFunc (cmd i).code ≠ 0) LogsMarked where
  result := by
    intro i l _
    unfold attemptCode
    split
    · rename_i h
      exact (decide_eq_true h).symm
    · rename_i h
      exact (decide_eq_false h).symm
  next := by
    intro i l _ hfailed
    unfold attemptCode
    rw [if_neg (of_decide_eq_false hfailed)]
    exact LogsMarked.markAttempt _ i

theorem logsMarked_start : LogsMarked 0 {} := ⟨rfl, rfl⟩

variable {attempt : Nat → Logs → Bool × Logs} {ok : Nat → Bool}

theorem runUntil_iff (now : Nat → Int) (start duration : Int)
    (h : Decides attempt ok LogsMarked) :
    ((∃ n l, runUntil now start duration attempt n = some (0, l)) ↔
        ∃ i, Reaches (timeLeft now start duration) ok i) ∧
      ((∃ n l, runUntil now start duration attempt n = some (1, l)) ↔
        ∃ k, Exhausts (timeLeft now start duration) ok k) := by
  have hstatus (n : Nat) (b : Bool) (l : Logs) :
      runUntil now start duration attempt n = some (if b then 0 else 1, l) ↔
        poll (timeLeft now start duration) attempt n 0 {} = some (b, l) := by
    unfold runUntil
    rw [Option.map_eq_some_iff]
    constructor
    · rintro ⟨⟨b', l'⟩, hpoll, heq⟩
      rw [hpoll]
      cases b <;> cases b' <;> simp_all
    · intro hpoll
      exact ⟨(b, l), hpoll, rfl⟩
  constructor
  · rw [← poll_true_iff h logsMarked_start]
    exact exists₂_congr fun n l => hstatus n true l
  · rw [← poll_false_iff h logsMarked_start]
    exact exists₂_congr fun n l => hstatus n false l

/-- A call of `run_until_text` succeeds exactly when some attempt that begins before the
deadline has the text, or has it not, in what it has written itself, and it fails
exactly when the deadline has passed and no attempt before has.  What other attempts
have written has no part in it, although the files keep it. -/
theorem runUntilText_iff (grep : Text → Text → Outcome) (cmd : Nat → Outcome)
    (evalFunc : Nat → Nat) (now : Nat → Int) (start duration : Int) (text : Text) :
    ((∃ n l, runUntilText grep cmd evalFunc now start duration text n = some (0, l)) ↔
        ∃ i, (∀ j ≤ i, now j < wrap (start + duration)) ∧
          evalFunc (grep text (ownResults cmd i)).code ≠ 0) ∧
      ((∃ n l, runUntilText grep cmd evalFunc now start duration text n = some (1, l)) ↔
        ∃ k, wrap (start + duration) ≤ now k ∧ ∀ i < k, now i < wrap (start + duration) ∧
          evalFunc (grep text (ownResults cmd i)).code = 0) := by
  have hresult := runUntil_iff now start duration
    (decides_attemptText grep cmd evalFunc text)
  unfold runUntilText
  simpa [Reaches, Exhausts, timeLeft, found] using hresult

theorem runUntilExitCode_iff (cmd : Nat → Outcome) (evalFunc : Nat → Nat) (now : Nat → Int)
    (start duration : Int) :
    (∃ n l, runUntilExitCode cmd evalFunc now start duration n = some (0, l)) ↔
      ∃ i, (∀ j ≤ i, now j < wrap (start + duration)) ∧ evalFunc (cmd i).code ≠ 0 := by
  have hresult := (runUntil_iff now start duration
    (decides_attemptCode cmd evalFunc)).1
  unfold runUntilExitCode
  simpa [Reaches, timeLeft] using hresult

end Results

end AggregatedLogging.Testing.TryUntil
