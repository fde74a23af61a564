import AggregatedLogging.ShellArithmetic
import Mathlib.Data.Nat.Find

/-! The script that seeds the ACL index.  It tries until an attempt succeeds or the time is up, and
afterwards it tells from the time alone which of the two has happened. -/
namespace AggregatedLogging.Elasticsearch

open Calls
open Shell

section Script

/-- The environment of the script; what is set is one word. -/
structure SeedSettings where
  maxWaitSeed : Text
  logInterval : Value := .number 100
  word : maxWaitSeed.all (fun c => !isBlank c) = true

def oneWeek : Int := 60 * 60 * 24 * 7

/-- `${MAX_WAIT_SEED:-...}` as an operand of `[`. -/
def SeedSettings.maxWait (s : SeedSettings) : Option Int :=
  if s.maxWaitSeed = [] then some oneWeek else operand? s.maxWaitSeed

/-- Which calls of `sgadmin` succeed: the attempts to seed, and the two calls behind them. -/
structure SgAdmin where
  seeds : Nat → Bool
  disables : Bool
  updates : Bool

inductive SeedEvent where
  | retrying (numretries : Int)
  | givingUp
  | seeded
  | disabling
  | updating
  deriving DecidableEq, Repr

structure Seeding where
  attempts : Nat := 0
  now : Int := 0
  numretries : Int := 0
  log : List SeedEvent := []

def Seeding.record (e : SeedEvent) (w : Seeding) : Seeding := { w with log := w.log ++ [e] }

/-- `! expr $numretries % $loginterval`: `expr` fails when the remainder is zero, and on what is no
division. -/
def warns (numretries : Int) : Value → Bool
  | .number interval => interval = 0 || numretries.tmod interval = 0
  | _ => true

variable (a : SgAdmin) (s : SeedSettings)

def Seeding.retry (w : Seeding) : Seeding :=
  let w := if warns w.numretries s.logInterval then w.record (.retrying w.numretries) else w
  { w with numretries := wrap (w.numretries + 1), now := wrap (w.now + 40) }

/-- The loop, for at most `n` attempts; tells whether it has ended by then. -/
def seedLoop : Nat → Command Seeding Bool
  | 0 => return false
  | n + 1 => do
    let w ← get
    set { w with attempts := w.attempts + 1 }
    if a.seeds w.attempts then return true
    else if compares (fun now wait => now < wait) (some w.now) s.maxWait then do
      let w ← get
      set (w.retry s)
      seedLoop n
    else return true

def seedEnd : Command Seeding Bool := do
  let w ← get
  if compares (fun now wait => wait ≤ now) (some w.now) s.maxWait then do
    set (w.record .givingUp)
    throw 1
  else do
    let w := (w.record .seeded).record .disabling
    set w
    if a.disables then do
      set (w.record .updating)
      if a.updates then return true else throw 1
    else throw 1

def seedAcl (n : Nat) : Command Seeding Bool := do
  let ended ← seedLoop a s n
  if ended then seedEnd a s else return false

end Script

section Claim

variable (a : SgAdmin) (s : SeedSettings)

def ReachesSteps : Prop := ∃ n, SeedEvent.disabling ∈ (run (seedAcl a s n) {}).2.log

def GivesUp : Prop :=
  ∃ n, (run (seedAcl a s n) {}).1 = .error 1 ∧ SeedEvent.givingUp ∈ (run (seedAcl a s n) {}).2.log

def AttemptMade (k : Nat) : Prop := ∃ n, k < (run (seedAcl a s n) {}).2.attempts

structure ReportsOutcome : Prop where
  reaches : ReachesSteps a s ↔ ∃ k, AttemptMade a s k ∧ a.seeds k = true
  givesUp : GivesUp a s ↔ ∀ k, AttemptMade a s k → a.seeds k = false

/-- The first attempt behind which there is no time left. -/
def lastAttempt (wait : Int) : Nat := ((wait + 39) / 40).toNat

/-- The wait is an integer, and the last attempt is not the first that succeeds.  When the time
wraps around before it comes to the wait, or when the wait is no integer, an attempt must succeed:
any, or the first one. -/
def OutcomeShows : Prop :=
  match s.maxWait with
  | none => a.seeds 0 = true
  | some wait =>
    if wait ≤ 9223372036854775800 then
      ¬ (a.seeds (lastAttempt wait) = true ∧ ∀ j < lastAttempt wait, a.seeds j = false)
    else ∃ k, a.seeds k = true

end Claim

section Rounds

variable {a : SgAdmin} {s : SeedSettings} {k n : Nat}

def timeLeft (s : SeedSettings) (k : Nat) : Bool :=
  compares (fun now wait => now < wait) (some (wrap (40 * k))) s.maxWait

def GoesOn (a : SgAdmin) (s : SeedSettings) (k : Nat) : Prop :=
  a.seeds k = false ∧ timeLeft s k = true

def Seeding.attempted (w : Seeding) : Seeding := { w with attempts := w.attempts + 1 }

def seedHead (s : SeedSettings) : Nat → Seeding
  | 0 => {}
  | k + 1 => (seedHead s k).attempted.retry s

theorem retry_frame (w : Seeding) : (w.retry s).attempts = w.attempts ∧
    (w.retry s).now = wrap (w.now + 40) := by
  rw [Seeding.retry]
  split
  · exact ⟨rfl, rfl⟩
  · exact ⟨rfl, rfl⟩

theorem retry_log (w : Seeding) {e : SeedEvent} (h : e ∈ (w.retry s).log) :
    e ∈ w.log ∨ ∃ i, e = .retrying i := by
  rw [Seeding.retry] at h
  split at h
  · rcases List.mem_append.mp h with h | h
    · exact .inl h
    · exact .inr ⟨_, List.mem_singleton.mp h⟩
  · exact .inl h

theorem seedHead_attempts (s : SeedSettings) (k : Nat) : (seedHead s k).attempts = k := by
  induction k with
  | zero => rfl
  | succ k ih =>
    have hstep : (seedHead s (k + 1)).attempts = (seedHead s k).attempted.attempts :=
      (retry_frame _).1
    rw [hstep, Seeding.attempted, ih]

/-- The time is counted up by the longest that an attempt and the pause behind it can take. -/
theorem seedHead_now (s : SeedSettings) (k : Nat) : (seedHead s k).now = wrap (40 * k) := by
  induction k with
  | zero => rfl
  | succ k ih =>
    have hstep : (seedHead s (k + 1)).now = wrap ((seedHead s k).now + 40) := (retry_frame _).2
    have hnext : 40 * (k : Int) + 40 = 40 * ((k + 1 : Nat) : Int) := by omega
    rw [hstep, ih, wrap_add_wrap, hnext]

theorem seedHead_log {e : SeedEvent} (h : e ∈ (seedHead s k).log) : ∃ i, e = .retrying i := by
  induction k with
  | zero => exact absurd h List.not_mem_nil
  | succ k ih =>
    rcases retry_log _ h with hlog | hretry
    · exact ih hlog
    · exact hretry

theorem timeLeft_head (s : SeedSettings) (k : Nat) :
    compares (fun now wait => now < wait) (some (seedHead s k).now) s.maxWait = timeLeft s k := by
  rw [seedHead_now, timeLeft]

theorem seedLoop_goesOn {w : Seeding} (hseeds : a.seeds w.attempts = false)
    (htime : compares (fun now wait => now < wait) (some w.now) s.maxWait = true) :
    run (seedLoop a s (n + 1)) w = run (seedLoop a s n) (w.attempted.retry s) := by
  change run (if a.seeds w.attempts then _ else if compares _ (some w.now) s.maxWait then _ else _)
    w.attempted = _
  rw [hseeds, htime]
  rfl

theorem seedLoop_ends {w : Seeding} (h : ¬ (a.seeds w.attempts = false ∧
    compares (fun now wait => now < wait) (some w.now) s.maxWait = true)) :
    run (seedLoop a s (n + 1)) w = (.ok true, w.attempted) := by
  change run (if a.seeds w.attempts then _ else if compares _ (some w.now) s.maxWait then _ else _)
    w.attempted = _
  cases hseeds : a.seeds w.attempts with
  | true => rfl
  | false =>
    cases htime : compares (fun now wait => now < wait) (some w.now) s.maxWait with
    | true => exact absurd ⟨hseeds, htime⟩ h
    | false => rfl

/-- Behind attempts that all go on, the loop is at the next one. -/
theorem seedLoop_add (h : ∀ j < k, GoesOn a s j) (n : Nat) :
    run (seedLoop a s (k + n)) {} = run (seedLoop a s n) (seedHead s k) := by
  induction k generalizing n with
  | zero => rw [Nat.zero_add, seedHead]
  | succ k ih =>
    have hprefix : ∀ j < k, GoesOn a s j := by
      intro j hj
      exact h j (Nat.lt_succ_of_lt hj)
    obtain ⟨hseeds, htime⟩ := h k (Nat.lt_succ_self k)
    have hsplit : k + 1 + n = k + (n + 1) := by omega
    rw [← timeLeft_head] at htime
    rw [hsplit, ih hprefix, seedLoop_goesOn _ htime, seedHead]
    rw [seedHead_attempts]
    exact hseeds

theorem seedLoop_open (h : ∀ j < k, GoesOn a s j) :
    run (seedLoop a s k) {} = (.ok false, seedHead s k) := by
  have hrun := seedLoop_add h 0
  rw [Nat.add_zero] at hrun
  rw [hrun]
  rfl

theorem seedLoop_ended (h : ∀ j < k, GoesOn a s j) (hk : ¬ GoesOn a s k) (n : Nat) :
    run (seedLoop a s (k + (n + 1))) {} = (.ok true, (seedHead s k).attempted) := by
  rw [seedLoop_add h, seedLoop_ends]
  rw [timeLeft_head, seedHead_attempts]
  exact hk

end Rounds

section Ends

variable {a : SgAdmin} {s : SeedSettings} {k n : Nat}

/-- What the script asks behind the loop to tell that the time is up. -/
def timeUp (s : SeedSettings) (k : Nat) : Bool :=
  compares (fun now wait => wait ≤ now) (some (wrap (40 * k))) s.maxWait

theorem timeUp_tail (s : SeedSettings) (k : Nat) :
    compares (fun now wait => wait ≤ now) (some (seedHead s k).attempted.now) s.maxWait =
      timeUp s k := by
  rw [Seeding.attempted, seedHead_now, timeUp]

theorem seedEnd_late {w : Seeding}
    (h : compares (fun now wait => wait ≤ now) (some w.now) s.maxWait = true) :
    run (seedEnd a s) w = (.error 1, w.record .givingUp) := by
  change run (if compares _ (some w.now) s.maxWait then _ else _) w = _
  rw [h]
  rfl

theorem seedEnd_early {w : Seeding}
    (h : compares (fun now wait => wait ≤ now) (some w.now) s.maxWait = false) :
    ∃ more, (run (seedEnd a s) w).2 = { w with log := w.log ++ SeedEvent.seeded :: .disabling :: more } ∧
      SeedEvent.givingUp ∉ more := by
  change ∃ more, (run (if compares _ (some w.now) s.maxWait then _ else _) w).2 = _ ∧ _
  rw [h, if_neg Bool.false_ne_true]
  cases hdisables : a.disables with
  | false =>
    refine ⟨[], ?_, List.not_mem_nil⟩
    change ({ w with log := w.log ++ [SeedEvent.seeded] ++ [SeedEvent.disabling] } : Seeding) = _
    rw [List.append_assoc]
    rfl
  | true =>
    refine ⟨[.updating], ?_, by decide⟩
    have hlog : w.log ++ [SeedEvent.seeded] ++ [SeedEvent.disabling] ++ [SeedEvent.updating] =
        w.log ++ [SeedEvent.seeded, .disabling, .updating] := by
      rw [List.append_assoc, List.append_assoc]
      rfl
    rw [← hlog]
    cases hupdates : a.updates with
    | false => rfl
    | true => rfl

theorem seedAcl_open (h : ∀ j < n, GoesOn a s j) :
    run (seedAcl a s n) {} = (.ok false, seedHead s n) := by
  rw [seedAcl, run_bind_ok (seedLoop_open h)]
  rfl

theorem seedAcl_ended (h : ∀ j < k, GoesOn a s j) (hk : ¬ GoesOn a s k) (n : Nat) :
    run (seedAcl a s (k + (n + 1))) {} = run (seedEnd a s) (seedHead s k).attempted := by
  rw [seedAcl, run_bind_ok (seedLoop_ended h hk n)]
  rfl

/-- The script that gives up and the one that goes on to the further steps both have made the
attempts up to the last one. -/
theorem seedEnd_attempts (w : Seeding) : (run (seedEnd a s) w).2.attempts = w.attempts := by
  cases hlate : compares (fun now wait => wait ≤ now) (some w.now) s.maxWait with
  | true =>
    rw [seedEnd_late hlate]
    rfl
  | false =>
    obtain ⟨more, hmore, -⟩ := seedEnd_early (a := a) hlate
    rw [hmore]

theorem seedAcl_cases (h : ∀ j < k, GoesOn a s j) (hk : ¬ GoesOn a s k) (n : Nat) :
    (n ≤ k ∧ run (seedAcl a s n) {} = (.ok false, seedHead s n)) ∨
      run (seedAcl a s n) {} = run (seedEnd a s) (seedHead s k).attempted := by
  by_cases hn : n ≤ k
  · left
    refine ⟨hn, seedAcl_open ?_⟩
    intro j hj
    exact h j (Nat.lt_of_lt_of_le hj hn)
  · right
    obtain ⟨m, hm⟩ := Nat.exists_eq_add_of_lt (Nat.lt_of_not_le hn)
    rw [hm, Nat.add_assoc]
    exact seedAcl_ended h hk m

theorem seedHead_quiet {e : SeedEvent} (he : ∀ i, e ≠ .retrying i) : e ∉ (seedHead s k).log := by
  intro hmem
  obtain ⟨i, hi⟩ := seedHead_log hmem
  exact he i hi

theorem attemptMade_iff (h : ∀ j < k, GoesOn a s j) (hk : ¬ GoesOn a s k) {j : Nat} :
    AttemptMade a s j ↔ j ≤ k := by
  have hlast : (run (seedEnd a s) (seedHead s k).attempted).2.attempts = k + 1 := by
    rw [seedEnd_attempts, Seeding.attempted, seedHead_attempts]
  constructor
  · rintro ⟨n, hn⟩
    rcases seedAcl_cases h hk n with ⟨hle, hrun⟩ | hrun
    · rw [hrun, seedHead_attempts] at hn
      omega
    · rw [hrun, hlast] at hn
      omega
  · intro hj
    refine ⟨k + 1, ?_⟩
    rw [seedAcl_ended h hk 0, hlast]
    omega

theorem givesUp_iff (h : ∀ j < k, GoesOn a s j) (hk : ¬ GoesOn a s k) :
    GivesUp a s ↔ timeUp s k = true := by
  have hquiet : SeedEvent.givingUp ∉ (seedHead s k).log := seedHead_quiet fun i hi => by cases hi
  constructor
  · rintro ⟨n, -, hlog⟩
    rcases seedAcl_cases h hk n with ⟨-, hrun⟩ | hrun
    · rw [hrun] at hlog
      exact absurd hlog (seedHead_quiet fun i hi => by cases hi)
    · rw [← Bool.not_eq_false, ← timeUp_tail]
      intro hearly
      obtain ⟨more, hmore, hnot⟩ := seedEnd_early (a := a) hearly
      rw [hrun, hmore] at hlog
      rcases List.mem_append.mp hlog with hold | hnew
      · exact hquiet hold
      · simp only [List.mem_cons, reduceCtorEq, false_or] at hnew
        exact hnot hnew
  · intro hlate
    rw [← timeUp_tail] at hlate
    refine ⟨k + 1, ?_, ?_⟩
    · rw [seedAcl_ended h hk 0, seedEnd_late hlate]
    · rw [seedAcl_ended h hk 0, seedEnd_late hlate]
      exact List.mem_append_right _ List.mem_cons_self

theorem reachesSteps_iff (h : ∀ j < k, GoesOn a s j) (hk : ¬ GoesOn a s k) :
    ReachesSteps a s ↔ timeUp s k = false := by
  have hquiet : SeedEvent.disabling ∉ (seedHead s k).log := seedHead_quiet fun i hi => by cases hi
  constructor
  · rintro ⟨n, hlog⟩
    rcases seedAcl_cases h hk n with ⟨-, hrun⟩ | hrun
    · rw [hrun] at hlog
      exact absurd hlog (seedHead_quiet fun i hi => by cases hi)
    · rw [← Bool.not_eq_true, ← timeUp_tail]
      intro hlate
      rw [hrun, seedEnd_late hlate] at hlog
      rcases List.mem_append.mp hlog with hold | hnew
      · exact hquiet hold
      · cases List.mem_singleton.mp hnew
  · intro hearly
    rw [← timeUp_tail] at hearly
    obtain ⟨more, hmore, -⟩ := seedEnd_early (a := a) hearly
    refine ⟨k + 1, ?_⟩
    rw [seedAcl_ended h hk 0, hmore]
    exact List.mem_append_right _ (List.mem_cons_of_mem _ List.mem_cons_self)

/-- What the script reports is right exactly when the time is up just for an attempt that has
failed. -/
theorem reportsOutcome_ended (h : ∀ j < k, GoesOn a s j) (hk : ¬ GoesOn a s k) :
    ReportsOutcome a s ↔ timeUp s k = !a.seeds k := by
  have hsome : (∃ j, AttemptMade a s j ∧ a.seeds j = true) ↔ a.seeds k = true := by
    constructor
    · rintro ⟨j, hj, hseeds⟩
      rcases Nat.lt_or_eq_of_le ((attemptMade_iff h hk).mp hj) with hlt | heq
      · rw [(h j hlt).1] at hseeds
        contradiction
      · rw [heq] at hseeds
        exact hseeds
    · intro hseeds
      exact ⟨k, (attemptMade_iff h hk).mpr (Nat.le_refl k), hseeds⟩
  have hall : (∀ j, AttemptMade a s j → a.seeds j = false) ↔ a.seeds k = false := by
    constructor
    · intro hseeds
      exact hseeds k ((attemptMade_iff h hk).mpr (Nat.le_refl k))
    · intro hseeds j hj
      rcases Nat.lt_or_eq_of_le ((attemptMade_iff h hk).mp hj) with hlt | heq
      · exact (h j hlt).1
      · rw [heq]
        exact hseeds
  constructor
  · intro hreports
    have hreaches := hreports.reaches
    rw [reachesSteps_iff h hk, hsome] at hreaches
    cases hseeds : a.seeds k with
    | true => exact hreaches.mpr hseeds
    | false =>
      rw [Bool.not_false, ← Bool.not_eq_false]
      intro hearly
      rw [hreaches.mp hearly] at hseeds
      contradiction
  · intro htime
    constructor
    · rw [reachesSteps_iff h hk, hsome, htime, Bool.not_eq_false']
    · rw [givesUp_iff h hk, hall, htime, Bool.not_eq_true']

theorem not_reportsOutcome (h : ∀ j, GoesOn a s j) : ¬ ReportsOutcome a s := by
  intro hreports
  have hmade : ∀ j, AttemptMade a s j → a.seeds j = false := by
    intro j _
    exact (h j).1
  obtain ⟨n, herror, -⟩ := hreports.givesUp.mpr hmade
  rw [seedAcl_open fun j _ => h j] at herror
  cases herror

end Ends

section Outcome

variable {a : SgAdmin} {s : SeedSettings} {k : Nat} {wait : Int}

theorem timeLeft_eq (h : s.maxWait = some wait) (k : Nat) :
    timeLeft s k = decide (wrap (40 * k) < wait) := by
  rw [timeLeft, h, compares]

theorem timeUp_eq (h : s.maxWait = some wait) (k : Nat) : timeUp s k = !timeLeft s k := by
  rw [timeUp, timeLeft_eq h, h, compares, ← decide_not, decide_eq_decide, Int.not_lt]

/-- Up to the last attempt the time does not wrap around. -/
theorem timeLeft_small (h : s.maxWait = some wait) (hwait : wait ≤ 9223372036854775800)
    (hk : k ≤ lastAttempt wait) : timeLeft s k = decide (k < lastAttempt wait) := by
  rw [lastAttempt] at hk
  rw [timeLeft_eq h, decide_eq_decide, wrap, lastAttempt]
  omega

/-- A wait that no multiple of the step comes to is never over. -/
theorem timeLeft_huge (h : s.maxWait = some wait) (hwait : ¬ wait ≤ 9223372036854775800) (k : Nat) :
    timeLeft s k = true := by
  rw [timeLeft_eq h, decide_eq_true_eq, wrap]
  omega

theorem reportsOutcome_seeded (h : s.maxWait = some wait) (htime : ∀ j ≤ k, timeLeft s j = true)
    (hseeds : a.seeds k = true) (hfirst : ∀ j < k, a.seeds j = false) : ReportsOutcome a s := by
  have hbefore : ∀ j < k, GoesOn a s j := by
    intro j hj
    exact ⟨hfirst j hj, htime j (Nat.le_of_lt hj)⟩
  have hend : ¬ GoesOn a s k := by
    intro hgoes
    rw [hgoes.1] at hseeds
    contradiction
  rw [reportsOutcome_ended hbefore hend, timeUp_eq h, htime k (Nat.le_refl k), hseeds]

theorem exists_first (h : ∃ k, a.seeds k = true) :
    ∃ k, a.seeds k = true ∧ ∀ j < k, a.seeds j = false := by
  refine ⟨Nat.find h, Nat.find_spec h, ?_⟩
  intro j hj
  exact (Bool.not_eq_true _).mp (Nat.find_min h hj)

theorem reportsOutcome_small (h : s.maxWait = some wait) (hwait : wait ≤ 9223372036854775800) :
    ReportsOutcome a s ↔
      ¬ (a.seeds (lastAttempt wait) = true ∧ ∀ j < lastAttempt wait, a.seeds j = false) := by
  have hleft : ∀ j < lastAttempt wait, timeLeft s j = true := by
    intro j hj
    rw [timeLeft_small h hwait (Nat.le_of_lt hj), decide_eq_true hj]
  by_cases hfail : ∀ j < lastAttempt wait, a.seeds j = false
  · have hbefore : ∀ j < lastAttempt wait, GoesOn a s j := by
      intro j hj
      exact ⟨hfail j hj, hleft j hj⟩
    have hover : timeLeft s (lastAttempt wait) = false := by
      rw [timeLeft_small h hwait (Nat.le_refl _), decide_eq_false (Nat.lt_irrefl _)]
    have hend : ¬ GoesOn a s (lastAttempt wait) := by
      intro hgoes
      rw [hgoes.2] at hover
      contradiction
    rw [reportsOutcome_ended hbefore hend, timeUp_eq h, hover, and_iff_left hfail,
      Bool.not_eq_true, Bool.not_false, eq_comm, Bool.not_eq_true']
  · have hsome : ∃ k, a.seeds k = true := by
      by_contra hnone
      apply hfail
      intro j _
      rw [← Bool.not_eq_true]
      intro hj
      exact hnone ⟨j, hj⟩
    obtain ⟨k, hk, hfirst⟩ := exists_first hsome
    have hlt : k < lastAttempt wait := by
      by_contra hge
      apply hfail
      intro j hj
      exact hfirst j (Nat.lt_of_lt_of_le hj (Nat.le_of_not_lt hge))
    apply iff_of_true
    · apply reportsOutcome_seeded h _ hk hfirst
      intro j hj
      exact hleft j (Nat.lt_of_le_of_lt hj hlt)
    · intro hall
      exact hfail hall.2

theorem reportsOutcome_huge (h : s.maxWait = some wait) (hwait : ¬ wait ≤ 9223372036854775800) :
    ReportsOutcome a s ↔ ∃ k, a.seeds k = true := by
  have hleft := timeLeft_huge h hwait
  constructor
  · intro hreports
    by_contra hnone
    apply not_reportsOutcome _ hreports
    intro j
    refine ⟨?_, hleft j⟩
    rw [← Bool.not_eq_true]
    intro hj
    exact hnone ⟨j, hj⟩
  · intro hsome
    obtain ⟨k, hk, hfirst⟩ := exists_first hsome
    exact reportsOutcome_seeded h (fun j _ => hleft j) hk hfirst

/-- What is no integer ends the loop behind the first attempt, and gives up never. -/
theorem reportsOutcome_none (h : s.maxWait = none) : ReportsOutcome a s ↔ a.seeds 0 = true := by
  have hleft : timeLeft s 0 = false := by
    rw [timeLeft, h]
    rfl
  have hup : timeUp s 0 = false := by
    rw [timeUp, h]
    rfl
  have hend : ¬ GoesOn a s 0 := by
    intro hgoes
    rw [hgoes.2] at hleft
    contradiction
  rw [reportsOutcome_ended (fun j hj => absurd hj (Nat.not_lt_zero j)) hend, hup, eq_comm,
    Bool.not_eq_false']

/-- The outcome that the script reports is the real one exactly when the time tells it. -/
theorem reportsOutcome_iff (a : SgAdmin) (s : SeedSettings) :
    ReportsOutcome a s ↔ OutcomeShows a s := by
  unfold OutcomeShows
  cases h : s.maxWait with
  | none => exact reportsOutcome_none h
  | some wait =>
    dsimp only
    split
    · rename_i hwait
      exact reportsOutcome_small h hwait
    · rename_i hwait
      exact reportsOutcome_huge h hwait

def lateSuccess : SgAdmin := ⟨fun k => k = 1, true, true⟩

def shortWait : SeedSettings where
  maxWaitSeed := "40".toList
  word := Eq.refl true

theorem not_reportsOutcome_late : ¬ ReportsOutcome lateSuccess shortWait := by
  intro hreports
  have hgivesUp : GivesUp lateSuccess shortWait := ⟨2, rfl, by decide⟩
  have hmade : AttemptMade lateSuccess shortWait 1 := ⟨2, by decide⟩
  have hfailed := hreports.givesUp.mp hgivesUp 1 hmade
  cases hfailed

end Outcome

end AggregatedLogging.Elasticsearch
