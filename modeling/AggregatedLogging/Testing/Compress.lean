import AggregatedLogging.Testing.TryUntil
import Mathlib.Data.List.DropRight
import Mathlib.Logic.Function.Basic

/-! `compress.awk`, which prints the output of repeated attempts as a timeline: attempts in a row
with the same output become one record with a counter. -/
namespace AggregatedLogging.Testing.Compress

open TryUntil

section Program

def isSpace (c : Char) : Bool := c = ' ' || c = '\t' || c = '\r' || c = '\n'

def trim (s : Text) : Text := (s.dropWhile isSpace).rdropWhile isSpace

/-- A value of `awk`.  What comes from the input as it is can count as a number. -/
structure Cell where
  text : Text := []
  fromInput : Bool := false

variable (number : Text → Option Rat)

def Cell.value (c : Cell) : Option Rat := if c.fromInput then number c.text else none

def Cell.holds (c : Cell) : Bool :=
  match c.value number with
  | some q => q ≠ 0
  | none => c.text ≠ []

def Cell.differs (c d : Cell) : Bool :=
  match c.value number, d.value number with
  | some p, some q => p ≠ q
  | _, _ => c.text ≠ d.text

/-- The variables of the program, and the arguments of `printRecordAndCount`. -/
structure Awk where
  seen : Text → Nat := fun _ => 0
  previous : Cell := {}
  printed : List (Text × Nat) := []

def Awk.print (a : Awk) : Awk :=
  { a with printed := a.printed ++ [(a.previous.text, a.seen a.previous.text)] }

def Awk.read (a : Awk) (record : Text) : Awk :=
  let current : Cell := ⟨trim record, trim record = record⟩
  let counted := { a with
    seen := Function.update a.seen current.text (a.seen current.text + 1) }
  let shown := if a.previous.holds number && a.previous.differs number current then counted.print
    else counted
  { shown with previous := current }

def Awk.finish (a : Awk) : Awk := if a.previous.holds number then a.print else a

def compress (s : Text) : List (Text × Nat) :=
  (((records s).foldl (Awk.read number) {}).finish number).printed

end Program

section Timeline

def push (t : Text) : List (Text × Nat) → List (Text × Nat)
  | [] => [(t, 1)]
  | (x, k) :: rs => if x = t then (x, k + 1) :: rs else (t, 1) :: (x, k) :: rs

def runs : List Text → List (Text × Nat)
  | [] => []
  | t :: ts => push t (runs ts)

def totals (before : Text → Nat) : List (Text × Nat) → List (Text × Nat)
  | [] => []
  | (x, k) :: rs => (x, before x + k) :: totals (Function.update before x (before x + k)) rs

def nonempty (rs : List (Text × Nat)) : List (Text × Nat) := rs.filter fun r => r.1 ≠ []

/-- What is shown from a record `p` on that was counted last. -/
def shown (seen : Text → Nat) (p : Text) : List Text → List (Text × Nat)
  | [] => [(p, seen p)]
  | t :: ts =>
    let counted := Function.update seen t (seen t + 1)
    if p ≠ t then (p, counted p) :: shown counted t ts else shown counted t ts

theorem runs_cons (t : Text) (ts : List Text) : ∃ k rs, runs (t :: ts) = (t, k + 1) :: rs := by
  rw [runs]
  cases runs ts with
  | nil => exact ⟨0, [], rfl⟩
  | cons r rs =>
    obtain ⟨x, k⟩ := r
    rw [push]
    split
    · rename_i h
      exact ⟨k, rs, by rw [h]⟩
    · exact ⟨0, (x, k) :: rs, rfl⟩

theorem runs_pos (ts : List Text) : ∀ r ∈ runs ts, 0 < r.2 := by
  induction ts with
  | nil =>
    intro r hr
    exact absurd hr List.not_mem_nil
  | cons t ts ih =>
    intro r hr
    rw [runs] at hr
    cases hruns : runs ts with
    | nil =>
      rw [hruns, push, List.mem_singleton] at hr
      rw [hr]
      exact Nat.one_pos
    | cons first rs =>
      obtain ⟨x, k⟩ := first
      rw [hruns] at ih hr
      rw [push] at hr
      split at hr
      · rcases List.mem_cons.mp hr with rfl | hr
        · exact Nat.succ_pos k
        · exact ih r (List.mem_cons_of_mem _ hr)
      · rcases List.mem_cons.mp hr with rfl | hr
        · exact Nat.one_pos
        · exact ih r hr

theorem shown_eq_totals (before : Text → Nat) (p : Text) (ts : List Text) :
    shown (Function.update before p (before p + 1)) p ts = totals before (runs (p :: ts)) := by
  induction ts generalizing before p with
  | nil =>
    rw [shown, Function.update_self]
    rfl
  | cons t ts ih =>
    obtain ⟨k, rs, hruns⟩ := runs_cons t ts
    rw [shown]
    by_cases h : p = t
    · subst h
      rw [if_neg (not_not.mpr rfl), ih, hruns, runs, hruns, push, if_pos rfl, totals, totals,
        Function.update_self, Function.update_idem]
      have hsum : before p + 1 + (k + 1) = before p + (k + 1 + 1) := by omega
      rw [hsum]
    · have hnext : runs (p :: t :: ts) = (p, 1) :: runs (t :: ts) := by
        rw [runs, hruns, push, if_neg (Ne.symm h)]
      rw [if_pos h, ih, hnext, totals, Function.update_of_ne h, Function.update_self]

theorem mem_nonempty {r : Text × Nat} {rs : List (Text × Nat)} :
    r ∈ nonempty rs ↔ r ∈ rs ∧ r.1 ≠ [] := by
  rw [nonempty, List.mem_filter, decide_eq_true_eq]

theorem nonempty_cons_nil (n : Nat) (rs : List (Text × Nat)) :
    nonempty (([], n) :: rs) = nonempty rs :=
  List.filter_cons_of_neg (by simp)

theorem nonempty_cons {x : Text} (hx : x ≠ []) (n : Nat) (rs : List (Text × Nat)) :
    nonempty ((x, n) :: rs) = (x, n) :: nonempty rs :=
  List.filter_cons_of_pos (by simp [hx])

theorem totals_eq_iff {before : Text → Nat} {rs : List (Text × Nat)} (h : ∀ r ∈ rs, 0 < r.2) :
    nonempty (totals before rs) = nonempty rs ↔
      (∀ r ∈ nonempty rs, before r.1 = 0) ∧ ((nonempty rs).map Prod.fst).Nodup := by
  induction rs generalizing before with
  | nil => simp [totals, nonempty]
  | cons r rs ih =>
    obtain ⟨x, k⟩ := r
    have hk : 0 < k := h (x, k) List.mem_cons_self
    have hrest := @ih (Function.update before x (before x + k))
      fun r hr => h r (List.mem_cons_of_mem _ hr)
    rw [totals]
    by_cases hx : x = []
    · subst hx
      rw [nonempty_cons_nil, nonempty_cons_nil, hrest]
      apply and_congr_left'
      refine forall₂_congr fun r hr => ?_
      rw [Function.update_of_ne (mem_nonempty.mp hr).2]
    · rw [nonempty_cons hx, nonempty_cons hx, List.cons.injEq, Prod.mk.injEq, hrest,
        List.map_cons, List.nodup_cons, List.forall_mem_cons]
      have hfree : (∀ r ∈ nonempty rs, Function.update before x (before x + k) r.1 = 0) ↔
          (∀ r ∈ nonempty rs, before r.1 = 0) ∧ x ∉ (nonempty rs).map Prod.fst := by
        rw [List.mem_map, not_exists, ← forall_and]
        refine forall_congr' fun r => ?_
        by_cases hr : r.1 = x
        · rw [hr, Function.update_self]
          constructor
          · intro hzero
            exact ⟨fun hmem => absurd (hzero hmem) (by omega),
              fun hmem => absurd (hzero hmem.1) (by omega)⟩
          · intro hboth hmem
            exact absurd ⟨hmem, rfl⟩ hboth.2
        · rw [Function.update_of_ne hr]
          exact ⟨fun hzero => ⟨hzero, fun hmem => hr hmem.2⟩, fun hboth => hboth.1⟩
      have hlength : x = x ∧ before x + k = k ↔ before x = 0 := by
        rw [Nat.add_eq_right]
        exact and_iff_right rfl
      rw [hfree, hlength]
      constructor
      · rintro ⟨hbefore, ⟨hzero, hnew⟩, hnodup⟩
        exact ⟨⟨hbefore, hzero⟩, hnew, hnodup⟩
      · rintro ⟨⟨hbefore, hzero⟩, hnew, hnodup⟩
        exact ⟨hbefore, ⟨hzero, hnew⟩, hnodup⟩

end Timeline

section Result

variable {number : Text → Option Rat}

def Plain (number : Text → Option Rat) (c : Cell) : Prop :=
  ∀ d : Cell, d.fromInput = false → c.holds number = decide (c.text ≠ []) ∧
    c.differs number d = decide (c.text ≠ d.text)

theorem plain_of_not_fromInput {c : Cell} (h : c.fromInput = false) : Plain number c := by
  intro d hd
  unfold Cell.holds Cell.differs Cell.value
  rw [h, hd]
  exact ⟨rfl, rfl⟩

/-- From a counted record on the program prints what is shown of the records to come. -/
theorem foldl_read {a : Awk} (hp : Plain number a.previous) {ts : List Text}
    (hts : ∀ t ∈ ts, trim t ≠ t) :
    ((ts.foldl (Awk.read number) a).finish number).printed =
      a.printed ++ nonempty (shown a.seen a.previous.text (ts.map trim)) := by
  induction ts generalizing a with
  | nil =>
    have hholds := (hp {} rfl).1
    rw [List.foldl_nil, Awk.finish, hholds, List.map_nil, shown]
    by_cases h : a.previous.text = []
    · rw [h, if_neg (by simp), nonempty_cons_nil]
      exact (List.append_nil _).symm
    · rw [if_pos (by simp [h]), nonempty_cons h]
      rfl
  | cons t ts ih =>
    have ht := hts t List.mem_cons_self
    have hcurrent : (⟨trim t, trim t = t⟩ : Cell).fromInput = false := decide_eq_false ht
    have hholds := hp ⟨trim t, trim t = t⟩ hcurrent
    rw [List.foldl_cons, @ih (a.read number t) (plain_of_not_fromInput hcurrent)
      fun u hu => hts u (List.mem_cons_of_mem t hu), List.map_cons, shown]
    by_cases hsame : a.previous.text = trim t
    · have hquiet : (a.previous.holds number &&
          a.previous.differs number ⟨trim t, trim t = t⟩) = false := by
        rw [hholds.2, decide_eq_false (not_not.mpr hsame), Bool.and_false]
      rw [if_neg (not_not.mpr hsame), Awk.read, hquiet]
      rfl
    · rw [if_pos hsame]
      by_cases hempty : a.previous.text = []
      · have hquiet : (a.previous.holds number &&
            a.previous.differs number ⟨trim t, trim t = t⟩) = false := by
          rw [hholds.1, decide_eq_false (not_not.mpr hempty), Bool.false_and]
        rw [hempty, nonempty_cons_nil, Awk.read, hquiet]
        rfl
      · have hshown : (a.previous.holds number &&
            a.previous.differs number ⟨trim t, trim t = t⟩) = true := by
          rw [hholds.1, hholds.2, decide_eq_true hempty, decide_eq_true hsame, Bool.and_self]
        rw [nonempty_cons hempty, Awk.read, hshown, if_pos rfl]
        exact List.append_assoc _ _ _

theorem plain_of_number {c : Cell} (hempty : number [] = none)
    (h : c.fromInput = true → number c.text ≠ some 0) : Plain number c := by
  cases hinput : c.fromInput with
  | false => exact plain_of_not_fromInput hinput
  | true =>
    intro d hd
    unfold Cell.holds Cell.differs Cell.value
    rw [hinput, hd]
    cases hnumber : number c.text with
    | none => simp
    | some q =>
      have hzero : q ≠ 0 := by
        rintro rfl
        exact h hinput hnumber
      have htext : c.text ≠ [] := by
        intro hnil
        rw [hnil, hempty] at hnumber
        contradiction
      simp [hzero, htext]

theorem trim_ne {r : Text} (h : r.head? = some '\n') : trim r ≠ r := by
  intro htrim
  cases r with
  | nil => contradiction
  | cons c r =>
    obtain rfl : c = '\n' := Option.some.inj h
    have hdrop : ('\n' :: r).dropWhile isSpace = r.dropWhile isSpace := rfl
    have hshorter : (trim ('\n' :: r)).length ≤ r.length := by
      unfold trim
      rw [hdrop]
      have hback := (List.rdropWhile_prefix isSpace (r.dropWhile isSpace)).length_le
      exact hback.trans (List.dropWhile_suffix isSpace).length_le
    rw [htrim, List.length_cons] at hshorter
    omega

/-- The first output is no zero without anything around it, and each of the others begins with
the end of a mark. -/
structure AttemptRecords (number : Text → Option Rat) (rs : List Text) : Prop where
  first : ∀ r ∈ rs.head?, trim r = r → number r ≠ some 0
  later : ∀ r ∈ rs.tail, r.head? = some '\n'

theorem compress_eq (hempty : number [] = none) {s : Text}
    (h : AttemptRecords number (records s)) :
    compress number s = nonempty (totals (fun _ => 0) (runs ((records s).map trim))) := by
  unfold compress
  cases hrecords : records s with
  | nil => rfl
  | cons r rs =>
    rw [hrecords] at h
    have hplain : Plain number ⟨trim r, trim r = r⟩ := by
      apply plain_of_number hempty
      intro hinput
      have hsame := of_decide_eq_true hinput
      change number (trim r) ≠ some 0
      rw [hsame]
      exact h.first r rfl hsame
    have hread : Awk.read number {} r =
        ⟨Function.update (fun _ => 0) (trim r) 1, ⟨trim r, trim r = r⟩, []⟩ := rfl
    have hrest := @foldl_read number (Awk.read number {} r) hplain rs
      fun t ht => trim_ne (h.later t ht)
    have hshown := shown_eq_totals (fun _ => 0) (trim r) (rs.map trim)
    rw [List.foldl_cons, hrest, hread, List.map_cons, ← hshown]
    rfl

/-- The timeline counts what was seen of an output since the beginning.  These are the
counters of the runs exactly when no output comes again behind another one. -/
theorem compress_runs_iff (hempty : number [] = none) {s : Text}
    (h : AttemptRecords number (records s)) :
    compress number s = nonempty (totals (fun _ => 0) (runs ((records s).map trim))) ∧
      (compress number s = nonempty (runs ((records s).map trim)) ↔
        ((nonempty (runs ((records s).map trim))).map Prod.fst).Nodup) := by
  refine ⟨compress_eq hempty h, ?_⟩
  rw [compress_eq hempty h, totals_eq_iff (runs_pos _)]
  exact and_iff_right fun _ _ => rfl

def digits (t : Text) : Option Rat := (Shell.natural? t).map fun n => (n : Rat)

def flapping : Text :=
  "up\n".toList ++ separator :: "\ndown\n".toList ++ separator :: "\nup\n".toList

theorem compress_runs_flapping :
    compress digits flapping ≠ nonempty (runs ((records flapping).map trim)) := by
  have hrecords : AttemptRecords digits (records flapping) := ⟨by decide, by decide⟩
  have hnodup : ¬ ((nonempty (runs ((records flapping).map trim))).map Prod.fst).Nodup := by
    decide
  exact fun h => hnodup ((compress_runs_iff (by decide) hrecords).2.mp h)

end Result

end AggregatedLogging.Testing.Compress
