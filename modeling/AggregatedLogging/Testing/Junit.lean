import AggregatedLogging.Shell
import Mathlib.Algebra.Ring.Nat
import Mathlib.Data.List.Infix

/-! The markers for the jUnit report: the test scripts put them into their output, and count the
suites and test cases that are in flight. -/
namespace AggregatedLogging.Testing.Junit

open Calls Shell

/-- `NUM_OS_JUNIT_SUITES_IN_FLIGHT`, `NUM_OS_JUNIT_TESTS_IN_FLIGHT` and the lines of
`JUNIT_REPORT_OUTPUT`. -/
structure Report where
  suites : Nat := 0
  tests : Nat := 0
  output : List Text := []
  deriving DecidableEq

section Markers

def beginSuite : Text := "=== BEGIN TEST SUITE ".toList

def suiteStart (name : Text) : Text :=
  beginSuite ++ ("github.com/openshift/origin/test/".toList ++ name ++ " ===".toList)

def suiteEnd : Text := "=== END TEST SUITE ===".toList

def testStart : Text := "=== BEGIN TEST CASE ===".toList

def testEnd : Text := "=== END TEST CASE ===".toList

def Report.append (r : Report) (lines : List Text) : Report :=
  { r with output := r.output ++ lines }

def declareSuiteStart (name : Text) : Command Report PUnit := fun r =>
  (.ok ⟨⟩, { r.append [suiteStart name] with suites := r.suites + 1 })

def declareSuiteEnd : Command Report PUnit := fun r =>
  if r.suites < 1 then (.error 1, r)
  else (.ok ⟨⟩, { r.append [suiteEnd] with suites := r.suites - 1 })

def declareTestStart : Command Report PUnit := fun r =>
  if r.tests ≠ 0 then (.error 1, r)
  else if r.suites < 1 then (.error 1, r)
  else (.ok ⟨⟩, { r.append [testStart] with tests := r.tests + 1 })

def declareTestEnd : Command Report PUnit := fun r =>
  if r.tests ≠ 1 then (.error 1, r)
  else (.ok ⟨⟩, { r.append [testEnd] with tests := r.tests - 1 })

def checkTestCounters : Command Report PUnit := fun r =>
  if r.suites ≠ 0 then (.error 1, r) else if r.tests ≠ 0 then (.error 1, r) else (.ok ⟨⟩, r)

theorem run_declareSuiteEnd {r : Report} (h : 0 < r.suites) :
    (run declareSuiteEnd r).2 = { r.append [suiteEnd] with suites := r.suites - 1 } := by
  have hnot : ¬ r.suites < 1 := by omega
  exact congrArg Prod.snd (if_neg hnot)

/-- The loop of `reconcile_output`, which counts up while the suites count down. -/
def endSuites (i : Nat) (r : Report) : Report :=
  if h : i < r.suites then endSuites (i + 1) (run declareSuiteEnd r).2 else r
termination_by r.suites
decreasing_by
  rw [run_declareSuiteEnd (by omega)]
  exact Nat.sub_lt (by omega) Nat.one_pos

def reconcileOutput : Command Report PUnit := fun r =>
  (.ok ⟨⟩, endSuites 0 (if r.tests = 1 then (run declareTestEnd r).2 else r))

end Markers

/-- What a test script does to the report.  A call of `os::cmd` logs some lines in a
test case of its own, and passes or not. -/
inductive Action where
  | suiteStart (name : Text)
  | suiteEnd
  | testStart
  | testEnd
  | check (log : List Text) (passes : Bool)
  | reconcile

/-- The commands between the markers of an `os::cmd` are made also when a marker is refused. -/
def check (log : List Text) (passes : Bool) : Command Report PUnit := fun r =>
  let logged := (run declareTestStart r).2.append log
  (if passes then .ok ⟨⟩ else .error 1, (run declareTestEnd logged).2)

def Action.perform : Action → Command Report PUnit
  | suiteStart name => declareSuiteStart name
  | suiteEnd => declareSuiteEnd
  | testStart => declareTestStart
  | testEnd => declareTestEnd
  | check log passes => Junit.check log passes
  | reconcile => reconcileOutput

def performed (actions : List Action) (r : Report) : Report :=
  actions.foldl (fun r a => (run a.perform r).2) r

section Reading

inductive Marker where
  | suiteStart
  | suiteEnd
  | testStart
  | testEnd
  | other
  deriving DecidableEq, Repr

def marker (line : Text) : Marker :=
  if beginSuite.isPrefixOf line then .suiteStart
  else if line = suiteEnd then .suiteEnd
  else if line = testStart then .testStart
  else if line = testEnd then .testEnd
  else .other

structure Nesting where
  suites : Nat
  inTest : Bool
  deriving DecidableEq, Repr

def Nesting.read (n : Nesting) : Marker → Option Nesting
  | .suiteStart => if n.inTest then none else some { n with suites := n.suites + 1 }
  | .suiteEnd => if n.inTest || n.suites = 0 then none else some { n with suites := n.suites - 1 }
  | .testStart => if n.inTest || n.suites = 0 then none else some { n with inTest := true }
  | .testEnd => if n.inTest then some { n with inTest := false } else none
  | .other => some n

def nesting (output : List Text) : Option Nesting :=
  output.foldlM (fun n line => n.read (marker line)) ⟨0, false⟩

end Reading

section Nested

/-- No suite begins or ends while a test case is in flight. -/
def Action.orderly : Action → Report → Bool
  | suiteStart _, r => r.tests = 0
  | suiteEnd, r => r.tests = 0 || r.suites = 0
  | _, _ => true

def Orderly : List Action → Report → Prop
  | [], _ => True
  | a :: actions, r => a.orderly r = true ∧ Orderly actions (run a.perform r).2

/-- The name of a suite is one line, and what is logged looks like no marker. -/
def Action.plain : Action → Bool
  | suiteStart name => '\n' ∉ name
  | check log _ => log.all fun line => marker line = .other
  | _ => true

structure Counted (r : Report) : Prop where
  nested : nesting r.output = some ⟨r.suites, decide (r.tests = 1)⟩
  tests : r.tests ≤ 1
  inSuite : r.tests = 1 → 0 < r.suites

theorem marker_suiteStart (name : Text) : marker (suiteStart name) = .suiteStart := by
  have hbegins : beginSuite.isPrefixOf (suiteStart name) = true :=
    List.isPrefixOf_iff_prefix.mpr (List.prefix_append _ _)
  exact if_pos hbegins

theorem marker_suiteEnd : marker suiteEnd = .suiteEnd := by decide

theorem marker_testStart : marker testStart = .testStart := by decide

theorem marker_testEnd : marker testEnd = .testEnd := by decide

theorem nesting_append (output lines : List Text) :
    nesting (output ++ lines) =
      (nesting output).bind fun n => lines.foldlM (fun n line => n.read (marker line)) n :=
  List.foldlM_append

theorem nesting_line {output : List Text} {n : Nesting} (h : nesting output = some n)
    (line : Text) : nesting (output ++ [line]) = n.read (marker line) := by
  rw [nesting_append, h, Option.bind_some, List.foldlM_cons]
  exact bind_pure _

theorem nesting_log {output log : List Text}
    (h : (log.all fun line => marker line = .other) = true) :
    nesting (output ++ log) = nesting output := by
  induction log generalizing output with
  | nil => rw [List.append_nil]
  | cons line log ih =>
    rw [List.all_cons, Bool.and_eq_true, decide_eq_true_eq] at h
    rw [List.append_cons, ih h.2, nesting_append]
    simp [Nesting.read, h.1]

theorem Counted.logged {r : Report} (hr : Counted r) {log : List Text}
    (h : (log.all fun line => marker line = .other) = true) : Counted (r.append log) where
  nested := (nesting_log h).trans hr.nested
  tests := hr.tests
  inSuite := hr.inSuite

theorem declareTestStart_cases (r : Report) :
    (run declareTestStart r).2 = r ∨ (r.tests = 0 ∧ 0 < r.suites ∧
      (run declareTestStart r).2 = { r.append [Junit.testStart] with tests := 1 }) := by
  change (if _ then _ else if _ then _ else _ : Except Nat PUnit × Report).2 = r ∨ _
  by_cases htests : r.tests = 0
  · by_cases hsuites : 0 < r.suites
    · right
      refine ⟨htests, hsuites, ?_⟩
      simp [run, declareTestStart, htests, Nat.pos_iff_ne_zero.mp hsuites]
    · left
      simp [htests, Nat.eq_zero_of_not_pos hsuites]
  · left
    simp [htests]

theorem declareTestEnd_cases (r : Report) :
    (run declareTestEnd r).2 = r ∨ (r.tests = 1 ∧
      (run declareTestEnd r).2 = { r.append [Junit.testEnd] with tests := 0 }) := by
  by_cases htests : r.tests = 1
  · right
    exact ⟨htests, by simp [run, declareTestEnd, htests]⟩
  · left
    simp [run, declareTestEnd, htests]

theorem declareSuiteEnd_cases (r : Report) :
    (run declareSuiteEnd r).2 = r ∨ (0 < r.suites ∧
      (run declareSuiteEnd r).2 = { r.append [Junit.suiteEnd] with suites := r.suites - 1 }) := by
  by_cases hsuites : 0 < r.suites
  · exact .inr ⟨hsuites, run_declareSuiteEnd hsuites⟩
  · left
    simp [run, declareSuiteEnd, Nat.eq_zero_of_not_pos hsuites]

theorem Counted.testStart {r : Report} (hr : Counted r) : Counted (run declareTestStart r).2 := by
  rcases declareTestStart_cases r with h | ⟨htests, hsuites, h⟩
  · rwa [h]
  · rw [h]
    have hread := nesting_line hr.nested Junit.testStart
    rw [marker_testStart, htests] at hread
    refine ⟨hread.trans ?_, Nat.le_refl 1, fun _ => hsuites⟩
    simp [Nesting.read, Report.append, Nat.pos_iff_ne_zero.mp hsuites]

theorem Counted.testEnd {r : Report} (hr : Counted r) :
    Counted (run declareTestEnd r).2 := by
  rcases declareTestEnd_cases r with h | ⟨htests, h⟩
  · rwa [h]
  · rw [h]
    have hread := nesting_line hr.nested Junit.testEnd
    rw [marker_testEnd, htests] at hread
    exact ⟨hread.trans rfl, Nat.zero_le 1, fun hzero => absurd hzero Nat.zero_ne_one⟩

theorem Counted.suiteEnd {r : Report} (hr : Counted r) (htests : r.tests = 0) :
    Counted (run declareSuiteEnd r).2 := by
  rcases declareSuiteEnd_cases r with h | ⟨hsuites, h⟩
  · rwa [h]
  · rw [h]
    have hread := nesting_line hr.nested Junit.suiteEnd
    rw [marker_suiteEnd, htests] at hread
    refine ⟨hread.trans ?_, hr.tests, fun hone => absurd (htests.symm.trans hone) Nat.zero_ne_one⟩
    simp [Nesting.read, Report.append, Nat.pos_iff_ne_zero.mp hsuites, htests]

theorem Counted.suiteStart {r : Report} (hr : Counted r) (htests : r.tests = 0) (name : Text) :
    Counted (run (declareSuiteStart name) r).2 := by
  have hread := nesting_line hr.nested (Junit.suiteStart name)
  rw [marker_suiteStart, htests] at hread
  refine ⟨hread.trans ?_, hr.tests, fun hone => absurd (htests.symm.trans hone) Nat.zero_ne_one⟩
  change some _ = some (Nesting.mk (r.suites + 1) (decide (r.tests = 1)))
  rw [htests]

/-- Each round of the loop ends a suite and takes a suite from the rounds to come. -/
theorem endSuites_suites (i : Nat) (r : Report) :
    (endSuites i r).suites = r.suites - (r.suites - i + 1) / 2 := by
  induction i, r using endSuites.induct with
  | case1 i r h ih =>
    rw [endSuites, dif_pos h, ih, run_declareSuiteEnd (by omega)]
    change r.suites - 1 - (r.suites - 1 - (i + 1) + 1) / 2 = _
    omega
  | case2 i r h =>
    rw [endSuites, dif_neg h]
    omega

theorem Counted.endSuites {r : Report} (hr : Counted r) (htests : r.tests = 0) (i : Nat) :
    Counted (endSuites i r) ∧ (endSuites i r).tests = 0 := by
  induction i, r using endSuites.induct with
  | case1 i r h ih =>
    rw [Junit.endSuites, dif_pos h]
    apply ih (hr.suiteEnd htests)
    rw [run_declareSuiteEnd (by omega)]
    exact htests
  | case2 i r h =>
    rw [Junit.endSuites, dif_neg h]
    exact ⟨hr, htests⟩

def testEnded (r : Report) : Report := if r.tests = 1 then (run declareTestEnd r).2 else r

theorem Counted.testEnded {r : Report} (hr : Counted r) :
    Counted (testEnded r) ∧ (testEnded r).tests = 0 ∧ (testEnded r).suites = r.suites := by
  unfold Junit.testEnded
  split
  · rename_i htests
    refine ⟨hr.testEnd, ?_⟩
    rcases declareTestEnd_cases r with h | ⟨-, h⟩
    · simp [run, declareTestEnd, htests, Report.append]
    · rw [h]
      exact ⟨rfl, rfl⟩
  · rename_i htests
    have hle := hr.tests
    exact ⟨hr, by omega, rfl⟩

theorem run_reconcile (r : Report) :
    (run reconcileOutput r).2 = Junit.endSuites 0 (testEnded r) := rfl

theorem Counted.reconcile {r : Report} (hr : Counted r) :
    Counted (run reconcileOutput r).2 ∧ (run reconcileOutput r).2.tests = 0 ∧
      (run reconcileOutput r).2.suites = r.suites / 2 := by
  obtain ⟨hended, htests, hsuites⟩ := hr.testEnded
  obtain ⟨hcounted, hzero⟩ := hended.endSuites htests 0
  refine ⟨hcounted, hzero, ?_⟩
  rw [run_reconcile, endSuites_suites, hsuites]
  omega

theorem Counted.check {r : Report} (hr : Counted r) {log : List Text}
    (h : (log.all fun line => marker line = .other) = true) (passes : Bool) :
    Counted (run (Junit.check log passes) r).2 :=
  (hr.testStart.logged h).testEnd

theorem Counted.perform {r : Report} (hr : Counted r) {a : Action} (hplain : a.plain = true)
    (horderly : a.orderly r = true) : Counted (run a.perform r).2 := by
  cases a with
  | suiteStart name => exact hr.suiteStart (of_decide_eq_true horderly) name
  | suiteEnd =>
    rcases Bool.or_eq_true_iff.mp horderly with htests | hsuites
    · exact hr.suiteEnd (of_decide_eq_true htests)
    · rcases declareSuiteEnd_cases r with h | ⟨hpos, -⟩
      · change Counted (run declareSuiteEnd r).2
        rwa [h]
      · exact absurd (of_decide_eq_true hsuites) (by omega)
  | testStart => exact hr.testStart
  | testEnd => exact hr.testEnd
  | check log passes => exact hr.check hplain passes
  | reconcile => exact hr.reconcile.1

/-- One action out of order, behind which nothing is well nested any more. -/
theorem Counted.disorder {r : Report} (hr : Counted r) {a : Action}
    (h : a.orderly r = false) : nesting (run a.perform r).2.output = none := by
  have hle := hr.tests
  cases a with
  | suiteStart name =>
    have htests : r.tests ≠ 0 := of_decide_eq_false h
    have hread := nesting_line hr.nested (Junit.suiteStart name)
    rw [marker_suiteStart, decide_eq_true (by omega : r.tests = 1)] at hread
    exact hread
  | suiteEnd =>
    obtain ⟨htests, hsuites⟩ := Bool.or_eq_false_iff.mp h
    have hone : r.tests = 1 := by
      have hne := of_decide_eq_false htests
      omega
    have hread := nesting_line hr.nested Junit.suiteEnd
    rw [marker_suiteEnd, decide_eq_true hone] at hread
    change nesting (run declareSuiteEnd r).2.output = none
    rw [run_declareSuiteEnd (Nat.pos_of_ne_zero (of_decide_eq_false hsuites))]
    exact hread
  | testStart => contradiction
  | testEnd => contradiction
  | check log passes => contradiction
  | reconcile => contradiction

theorem endSuites_grows (i : Nat) (r : Report) : r.output <+: (endSuites i r).output := by
  induction i, r using endSuites.induct with
  | case1 i r h ih =>
    rw [endSuites, dif_pos h]
    rw [run_declareSuiteEnd (by omega)] at ih ⊢
    exact (List.prefix_append _ _).trans ih
  | case2 i r h =>
    rw [endSuites, dif_neg h]

theorem testStart_grows (r : Report) : r.output <+: (run declareTestStart r).2.output := by
  rcases declareTestStart_cases r with h | ⟨-, -, h⟩
  · rw [h]
  · rw [h]
    exact List.prefix_append _ _

theorem testEnd_grows (r : Report) : r.output <+: (run declareTestEnd r).2.output := by
  rcases declareTestEnd_cases r with h | ⟨-, h⟩
  · rw [h]
  · rw [h]
    exact List.prefix_append _ _

theorem perform_grows (a : Action) (r : Report) :
    r.output <+: (run a.perform r).2.output := by
  cases a with
  | suiteStart name => exact List.prefix_append _ _
  | suiteEnd =>
    change r.output <+: (run declareSuiteEnd r).2.output
    rcases declareSuiteEnd_cases r with h | ⟨-, h⟩
    · rw [h]
    · rw [h]
      exact List.prefix_append _ _
  | testStart => exact testStart_grows r
  | testEnd => exact testEnd_grows r
  | check log passes =>
    exact (testStart_grows r).trans ((List.prefix_append _ log).trans
      (testEnd_grows ((run declareTestStart r).2.append log)))
  | reconcile =>
    have hended : r.output <+: (testEnded r).output := by
      unfold testEnded
      split
      · exact testEnd_grows r
      · exact List.prefix_refl _
    exact hended.trans (endSuites_grows 0 _)

theorem nesting_none {r : Report} (h : nesting r.output = none) (a : Action) :
    nesting (run a.perform r).2.output = none := by
  obtain ⟨lines, hlines⟩ := perform_grows a r
  rw [← hlines, nesting_append, h]
  rfl

theorem performed_none {r : Report} (h : nesting r.output = none) (actions : List Action) :
    nesting (performed actions r).output = none := by
  induction actions generalizing r with
  | nil => exact h
  | cons a actions ih => exact ih (nesting_none h a)

theorem Counted.performed {r : Report} (hr : Counted r) {actions : List Action}
    (hplain : ∀ a ∈ actions, a.plain = true) (h : Orderly actions r) :
    Counted (performed actions r) := by
  induction actions generalizing r with
  | nil => exact hr
  | cons a actions ih =>
    exact ih (hr.perform (hplain a List.mem_cons_self) h.1)
      (fun b hb => hplain b (List.mem_cons_of_mem a hb)) h.2

theorem Counted.disordered {r : Report} (hr : Counted r) {actions : List Action}
    (hplain : ∀ a ∈ actions, a.plain = true) (h : ¬ Orderly actions r) :
    nesting (Junit.performed actions r).output = none := by
  induction actions generalizing r with
  | nil => exact absurd trivial h
  | cons a actions ih =>
    cases horderly : a.orderly r with
    | true =>
      exact ih (hr.perform (hplain a List.mem_cons_self) horderly)
        (fun b hb => hplain b (List.mem_cons_of_mem a hb)) fun hrest => h ⟨horderly, hrest⟩
    | false => exact performed_none (hr.disorder horderly) actions

theorem counted_empty : Counted {} where
  nested := rfl
  tests := Nat.zero_le 1
  inSuite h := absurd h Nat.zero_ne_one

/-- Over all runs of the test scripts the output is well nested exactly when no suite
begins or ends while a test case is in flight, and then the counters tell its nesting. -/
theorem nested_iff {actions : List Action} (hplain : ∀ a ∈ actions, a.plain = true) :
    (Orderly actions {} → nesting (performed actions {}).output =
      some ⟨(performed actions {}).suites, decide ((performed actions {}).tests = 1)⟩) ∧
    (¬ Orderly actions {} → nesting (performed actions {}).output = none) :=
  ⟨fun h => (counted_empty.performed hplain h).nested, counted_empty.disordered hplain⟩

theorem checkTestCounters_iff (r : Report) :
    (run checkTestCounters r).1 = .ok ⟨⟩ ↔ r.suites = 0 ∧ r.tests = 0 := by
  change (if _ then _ else if _ then _ else _ : Except Nat PUnit × Report).1 = _ ↔ _
  by_cases hsuites : r.suites = 0
  · by_cases htests : r.tests = 0
    · simp [hsuites, htests]
    · simp [hsuites, htests]
  · simp [hsuites]

theorem Counted.replicate_reconcile {r : Report} (hr : Counted r) (k : Nat) :
    Counted (Junit.performed (List.replicate (k + 1) .reconcile) r) ∧
      (Junit.performed (List.replicate (k + 1) .reconcile) r).tests = 0 ∧
      (Junit.performed (List.replicate (k + 1) .reconcile) r).suites =
        r.suites / 2 ^ (k + 1) := by
  induction k generalizing r with
  | zero => exact hr.reconcile
  | succ k ih =>
    obtain ⟨hcounted, htests, hsuites⟩ := ih hr.reconcile.1
    refine ⟨hcounted, htests, hsuites.trans ?_⟩
    rw [hr.reconcile.2.2, Nat.div_div_eq_div_mul, Nat.pow_succ' (n := k + 1)]

/-- `reconcile_output` ends the test case and every other suite only: behind `k + 1` calls
the output of an orderly run is complete, and the counters pass, exactly when there
were less than `2 ^ (k + 1)` suites in flight. -/
theorem reconciled {actions : List Action} (hplain : ∀ a ∈ actions, a.plain = true)
    (horderly : Orderly actions {}) (k : Nat) :
    nesting (performed (actions ++ List.replicate (k + 1) .reconcile) {}).output =
        some ⟨(performed actions {}).suites / 2 ^ (k + 1), false⟩ ∧
      ((run checkTestCounters (performed (actions ++ List.replicate (k + 1) .reconcile) {})).1 =
        .ok ⟨⟩ ↔ (performed actions {}).suites < 2 ^ (k + 1)) := by
  have hrun : performed (actions ++ List.replicate (k + 1) .reconcile) {} =
      performed (List.replicate (k + 1) .reconcile) (performed actions {}) := List.foldl_append
  obtain ⟨hcounted, htests, hsuites⟩ :=
    (counted_empty.performed hplain horderly).replicate_reconcile k
  rw [hrun]
  constructor
  · rw [hcounted.nested, hsuites, htests]
    rfl
  · rw [checkTestCounters_iff, hsuites, htests, Nat.div_eq_zero_iff_lt (Nat.two_pow_pos _)]
    exact and_iff_left rfl

def stopped : List Action :=
  [.suiteStart "entrypoint".toList, .suiteStart "test/setup/check-logs".toList,
    .check ["SUCCESS".toList] true, .testStart]

theorem stopped_orderly : Orderly stopped {} := ⟨by decide, by decide, by decide, by decide, trivial⟩

theorem nested_iff_stopped :
    nesting (performed stopped {}).output = some ⟨2, true⟩ :=
  (@nested_iff stopped (by decide)).1 stopped_orderly

theorem reconciled_stopped :
    nesting (performed (stopped ++ List.replicate 1 .reconcile) {}).output = some ⟨1, false⟩ :=
  (@reconciled stopped (by decide) stopped_orderly 0).1

end Nested

end AggregatedLogging.Testing.Junit
