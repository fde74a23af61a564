import AggregatedLogging.Calls

/-! What a shell makes of its variables.  An expansion without quotes is cut into words; `[` and
`expr` take words for integers, and fail on all others.  Under `set -e` a command that fails
ends the shell. -/
namespace AggregatedLogging.Shell

open Calls

section Words

def isBlank (c : Char) : Bool := c = ' ' || c = '\t' || c = '\n'

def flush (p : Text × List Text) : List Text := if p.1 = [] then p.2 else p.1 :: p.2

def addChar (c : Char) (p : Text × List Text) : Text × List Text :=
  if isBlank c then ([], flush p) else (c :: p.1, p.2)

/-- The words of an expansion without quotes, but for the names of files that they may stand
for. -/
def words (s : Text) : List Text := flush (s.foldr addChar ([], []))

theorem foldr_unbroken {w : Text} (h : ∀ c ∈ w, isBlank c = false) (p : Text × List Text) :
    w.foldr addChar p = (w ++ p.1, p.2) := by
  induction w with
  | nil => rfl
  | cons c w ih =>
    rw [List.forall_mem_cons] at h
    rw [List.foldr_cons, ih h.2, addChar, h.1]
    rfl

theorem words_unbroken {w : Text} (h : ∀ c ∈ w, isBlank c = false) (hne : w ≠ []) :
    words w = [w] := by
  rw [words, foldr_unbroken h, List.append_nil, flush, if_neg hne]

theorem words_first {w s : Text} {c : Char} (h : ∀ c ∈ w, isBlank c = false) (hne : w ≠ [])
    (hc : isBlank c = true) : words (w ++ c :: s) = w :: words s := by
  rw [words, List.foldr_append, foldr_unbroken h, List.foldr_cons, addChar, if_pos hc,
    List.append_nil, flush, if_neg hne]
  rfl

/-- What `echo` prints for the words of an expansion. -/
def echo (s : Text) : Text := Text.join [' '] (words s)

/-- `$1` in a function that is called with the expansion. -/
def unquoted (s : Text) : Text := (words s).head?.getD []

/-- `$(...)` drops the line breaks at the end. -/
def substitution (s : Text) : Text := (s.reverse.dropWhile fun c => c = '\n').reverse

theorem echo_unbroken {w : Text} (h : ∀ c ∈ w, isBlank c = false) (hne : w ≠ []) : echo w = w := by
  rw [echo, words_unbroken h hne]
  rfl

theorem unquoted_unbroken {w : Text} (h : ∀ c ∈ w, isBlank c = false) (hne : w ≠ []) :
    unquoted w = w := by
  rw [unquoted, words_unbroken h hne]
  rfl

theorem unquoted_broken {s : Text} (hhead : ∀ c, s.head? = some c → isBlank c = false)
    (h : ∃ c ∈ s, isBlank c = true) :
    ∃ u, u ≠ [] ∧ s = unquoted s ++ u ∧ unquoted s ≠ [] ∧
      ∀ c ∈ unquoted s, isBlank c = false := by
  have hsplit := List.takeWhile_append_dropWhile (p := fun c => !isBlank c) (l := s)
  have hword : ∀ c ∈ s.takeWhile fun c => !isBlank c, isBlank c = false := by
    intro c hc
    exact (Bool.not_eq_true' _).mp (List.all_eq_true.mp List.all_takeWhile c hc)
  have hne : (s.takeWhile fun c => !isBlank c) ≠ [] := by
    obtain ⟨c, hc, -⟩ := h
    cases s with
    | nil => exact absurd hc List.not_mem_nil
    | cons d s =>
      rw [List.takeWhile_cons_of_pos (by rw [hhead d rfl]; rfl)]
      exact List.cons_ne_nil _ _
  cases hrest : s.dropWhile fun c => !isBlank c with
  | nil =>
    obtain ⟨c, hc, hblank⟩ := h
    rw [hrest, List.append_nil] at hsplit
    rw [← hsplit] at hc
    rw [hword c hc] at hblank
    contradiction
  | cons c u =>
    have hc : isBlank c = true := by
      have hnot := List.head?_dropWhile_not (fun c => !isBlank c) s
      rw [hrest] at hnot
      simpa using hnot
    have hfirst : unquoted s = s.takeWhile fun c => !isBlank c := by
      rw [hrest] at hsplit
      rw [unquoted, ← hsplit, words_first hword hne hc, hsplit]
      rfl
    rw [hfirst]
    refine ⟨c :: u, List.cons_ne_nil _ _, ?_, hne, hword⟩
    rw [← hrest]
    exact hsplit.symm

end Words

section Values

/-- What a variable without quotes stands for in a command: no word, an integer, or what is
neither. -/
inductive Value where
  | empty
  | number (n : Int)
  | other
  deriving DecidableEq, Repr

def natural? (w : Text) : Option Nat :=
  if w ≠ [] ∧ w.all Char.isDigit then
    some (w.foldl (fun n c => 10 * n + (c.toNat - '0'.toNat)) 0)
  else none

def integer? : Text → Option Int
  | '-' :: w => (natural? w).map fun n => -n
  | w => (natural? w).map fun n => n

def Value.read (s : Text) : Value :=
  if s = [] then .empty
  else match words s with
    | [w] => match integer? w with
      | some n => .number n
      | none => .other
    | _ => .other

/-- `[` compares integers of 64 bits. -/
def fits (n : Int) : Bool := -9223372036854775808 ≤ n && n < 9223372036854775808

/-- `[ $v OP $w ]`. -/
def Value.test (op : Int → Int → Bool) : Value → Value → Bool
  | .number a, .number b => fits a && fits b && op a b
  | _, _ => false

theorem Value.test_number (op : Int → Int → Bool) (a b : Int) :
    Value.test op (.number a) (.number b) = (fits a && fits b && op a b) := rfl

theorem fits_eq_true {n : Int} :
    fits n = true ↔ -9223372036854775808 ≤ n ∧ n < 9223372036854775808 := by
  rw [fits, Bool.and_eq_true, decide_eq_true_eq, decide_eq_true_eq]

/-- `[ -z $v -o $v -eq 0 ]`, which is no expression when there is no word. -/
def Value.isZero (v : Value) : Bool := v.test (fun a b => a == b) (.number 0)

theorem Value.isZero_number (a : Int) : Value.isZero (.number a) = true ↔ a = 0 := by
  rw [isZero, test_number, Bool.and_eq_true, beq_iff_eq]
  constructor
  · intro h
    exact h.2
  · intro h
    subst h
    exact ⟨by decide, rfl⟩

/-- `expr $v \* $w`, where `expr` computes with integers of any size. -/
def Value.mul : Value → Value → Value
  | .number a, .number b => .number (a * b)
  | _, _ => .empty

def Value.div : Value → Value → Value
  | .number a, .number b => if b = 0 then .empty else .number (a.tdiv b)
  | _, _ => .empty

end Values

section Commands

variable {σ α : Type}

/-- A command under `set -e` on the variables `σ`; a failure ends the shell with its status. -/
abbrev Command (σ α : Type) := Call σ Nat α

def yields (e : Except Nat α) : Command σ α := fun s => (e, s)

/-- `while`, for at most `n` rounds; tells whether the condition has failed by then. -/
def whileLoop (cond : σ → Bool) (body : Command σ PUnit) : Nat → Command σ Bool
  | 0 => return false
  | n + 1 => do
    let s ← get
    if cond s then do
      body
      whileLoop cond body n
    else return true

def subshell (c : Command σ α) : Command σ α := fun s => ((run c s).1, s)

variable {s : σ} {Q : α → σ → Prop} {E : Nat → σ → Prop}

theorem Triple.yields {e : Except Nat α} (hok : ∀ a, e = .ok a → Q a s)
    (herror : ∀ n, e = .error n → E n s) : Triple (yields e) s Q E := by
  cases e with
  | ok a => exact hok a rfl
  | error n => exact herror n rfl

theorem Triple.subshell {c : Command σ α} (h : Triple c s Q E) :
    Triple (subshell c) s (fun a t => t = s ∧ ∃ u, Q a u) (fun n t => t = s ∧ ∃ u, E n u) := by
  unfold Triple at h ⊢
  change Lands _ _ ((run c s).1, s)
  rcases hrun : run c s with ⟨n | a, u⟩
  · rw [hrun] at h
    exact ⟨rfl, u, h⟩
  · rw [hrun] at h
    exact ⟨rfl, u, h⟩

/-- A loop with an invariant `I` and a bound `m` on the rounds that are left. -/
theorem Triple.whileLoop {cond : σ → Bool} {body : Command σ PUnit} {I : σ → Prop} {m : σ → Nat}
    (hbody : ∀ t, I t → cond t = true → Triple body t (fun _ u => I u ∧ m u < m t) E) (n : Nat)
    (hs : I s) :
    Triple (whileLoop cond body n) s
      (fun ended t => I t ∧ (ended = true → cond t = false) ∧ (m s < n → ended = true)) E := by
  induction n generalizing s with
  | zero => exact ⟨hs, fun h => Bool.noConfusion h, fun h => absurd h (Nat.not_lt_zero _)⟩
  | succ n ih =>
    apply Triple.get_bind
    cases hcond : cond s with
    | true =>
      apply Triple.bind (hbody s hs hcond)
      intro _ t ht
      apply Triple.mono (ih ht.1)
      · intro ended u hu
        exact ⟨hu.1, hu.2.1, fun h => hu.2.2 (by omega)⟩
      · intro _ _ he
        exact he
    | false => exact ⟨hs, fun _ => hcond, fun _ => rfl⟩

end Commands

end AggregatedLogging.Shell
