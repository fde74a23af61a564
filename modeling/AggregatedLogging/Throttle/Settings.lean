import AggregatedLogging.Regex.Fields
import AggregatedLogging.Python.Value
import Mathlib.Data.List.TakeWhile

/-! The throttle file: its projects and their settings, and which of them are
accepted. -/
namespace AggregatedLogging.Throttle

open Regex
open Python (Dict Key)

/-- A value of the document.  The generator looks at the text that `to_s` gives. -/
inductive Value where
  | int (n : Int)
  | other (text : Text)
  deriving DecidableEq, Repr

def Value.toS : Value → Text
  | .int n => if n < 0 then '-' :: Nat.toDigits 10 n.natAbs else Nat.toDigits 10 n.natAbs
  | .other text => text

inductive Options where
  | hash (settings : Dict Value)
  | other

/-- The throttle file as the YAML library loads it.  Hashes and lists both
respond to `map`, which takes their members apart into pairs. -/
inductive Document where
  | absent
  | broken
  | scalar
  | pairs (members : List (Key × Options))

def Document.parsed : Document → Dict Options
  | .absent | .broken | .scalar => Dict.empty
  | .pairs members => Dict.ofList members

inductive SettingType where
  | time
  | size
  | number
  | boolean
  deriving DecidableEq, Repr

def SettingType.pattern : SettingType → Text
  | .time => "^\\d+[sSmMhH]$".toList
  | .size => "^\\d+[kKmMgG]$".toList
  | .number => "^\\d+$".toList
  | .boolean => "^true$|^false$".toList

def readLinesLimit : Text := "read_lines_limit".toList

def validSettings : List (Key × SettingType) := [(Key.str readLinesLimit, .number)]

def firstMatch (pattern s : Text) : Option Text :=
  ((compile .ruby pattern).bind fun r => r.search s).map Match.text

def toI (s : Text) : Nat := Nat.ofDigitChars 10 (s.takeWhile Char.isDigit) 0

/-- The check of a value, on its first match. -/
def SettingType.accepts (t : SettingType) (s : Text) : Bool :=
  match firstMatch t.pattern s with
  | none => false
  | some m =>
    match t with
    | .time | .size => decide (0 < toI ((firstMatch "\\d+".toList m).getD []))
    | .number => decide (0 < toI m)
    | .boolean => true

def validate (key : Key) (value : Value) : Bool :=
  match validSettings.lookup key with
  | none => false
  | some t => t.accepts value.toS

/-- The line that `write_to_file` appends for a setting. -/
def settingText (key value : Text) : Text := ' ' :: ' ' :: (key ++ ' ' :: (value ++ ['\n']))

structure Setting where
  key : Text
  value : Text
  deriving DecidableEq, Repr

def Setting.text (s : Setting) : Text := settingText s.key s.value

def acceptedOf (settings : List (Key × Value)) : List Setting :=
  settings.filterMap fun s =>
    if validate s.1 s.2 then s.1.text?.map fun key => ⟨key, s.2.toS⟩ else none

/-- The accepted settings of a member: its name has to be a text and it has to
hold a hash. -/
def memberSettings (m : Key × Options) : Option (Text × List Setting) :=
  match m.1.text?, m.2 with
  | some name, .hash settings => some (name, acceptedOf settings.entries)
  | _, _ => none

def throttled (parsed : Dict Options) : List (Text × List Setting) :=
  (parsed.entries.filterMap memberSettings).filter fun p => p.2 ≠ []

def IsPositive (s : Text) : Prop :=
  s ≠ [] ∧ s.all Char.isDigit = true ∧ 0 < Nat.ofDigitChars 10 s 0

/-- One line that sets the limit to a positive number, and nothing else. -/
def IsLimitLine (s : Text) : Prop := ∃ n, IsPositive n ∧ s = settingText readLinesLimit n

theorem validate_eq_true {key : Key} {value : Value} :
    validate key value = true ↔ key = Key.str readLinesLimit ∧
      SettingType.number.accepts value.toS = true := by
  unfold validate validSettings
  by_cases hkey : key = Key.str readLinesLimit
  · simp [hkey]
  · simp [hkey, List.lookup_cons, beq_false_of_ne hkey]

theorem mem_acceptedOf {settings : List (Key × Value)} {s : Setting} :
    s ∈ acceptedOf settings ↔ s.key = readLinesLimit ∧
      SettingType.number.accepts s.value = true ∧
      ∃ v, (Key.str readLinesLimit, v) ∈ settings ∧ v.toS = s.value := by
  rw [acceptedOf, List.mem_filterMap]
  constructor
  · rintro ⟨⟨key, v⟩, hmem, hs⟩
    split at hs
    · rename_i hvalid
      obtain ⟨rfl, haccepts⟩ := validate_eq_true.mp hvalid
      rw [Key.text?_str, Option.map_some, Option.some.injEq] at hs
      subst hs
      exact ⟨rfl, haccepts, v, hmem, rfl⟩
    · contradiction
  · rintro ⟨hkey, haccepts, v, hmem, hv⟩
    obtain ⟨key, value⟩ := s
    obtain rfl : key = readLinesLimit := hkey
    obtain rfl : v.toS = value := hv
    refine ⟨_, hmem, ?_⟩
    rw [if_pos (validate_eq_true.mpr ⟨rfl, haccepts⟩), Key.text?_str]
    rfl

def digitsNode : Node :=
  .seq (.rep 1 none true (.atom (.cls false [.digit false])))
    (.seq (.atom (.at .lineEnd)) .empty)

def numberRegex : Pattern := ⟨.seq (.atom (.at .lineStart)) digitsNode, 0, [], Dialect.ruby.flags⟩

theorem compile_number : compile .ruby SettingType.number.pattern = some numberRegex := rfl

theorem digit_run (s : State) :
    (Node.atom (.cls false [.digit false])).run Dialect.ruby.flags s = s.eat Char.isDigit := by
  simp only [Node.run, Atom.run]
  congr 1
  funext c
  simp [classHolds, ClassItem.holds, Dialect.flags]

theorem eats_lineEnd {p : Char → Bool} {past rest : Text} {c : Captures} (hline : '\n' ∉ rest) :
    (eats p past c rest).flatMap
        ((Node.seq (.atom (.at .lineEnd)) .empty).run Dialect.ruby.flags) =
      if rest.all p then [⟨⟨rest.reverse ++ past, []⟩, c⟩] else [] := by
  induction rest generalizing past with
  | nil => simp [eats, Node.run, Atom.run, Anchor.holds]
  | cons x rest ih =>
    rw [List.mem_cons, not_or] at hline
    have hx : x ≠ '\n' := Ne.symm hline.1
    have hhere : (Node.seq (.atom (.at .lineEnd)) .empty).run Dialect.ruby.flags
        ⟨⟨past, x :: rest⟩, c⟩ = [] := by
      simp [Node.run, Atom.run, Anchor.holds, hx]
    rw [eats, List.flatMap_append, List.flatMap_cons, List.flatMap_nil, List.append_nil, hhere,
      List.append_nil, List.all_cons]
    cases hp : p x with
    | false => rfl
    | true =>
      rw [if_pos rfl, ih hline.2, Bool.true_and, List.reverse_cons, List.append_assoc]
      rfl

theorem digitsNode_run {s : Text} (hline : '\n' ∉ s) :
    digitsNode.run Dialect.ruby.flags (.start s) =
      if s ≠ [] ∧ s.all Char.isDigit = true then [⟨⟨s.reverse, []⟩, fun _ => none⟩] else [] := by
  cases s with
  | nil => rfl
  | cons x s =>
    rw [List.mem_cons, not_or] at hline
    rw [digitsNode, Node.run]
    by_cases hx : x.isDigit = true
    · have hrep := rep_one_run digit_run hx [] s fun _ => none
      rw [State.start, Cursor.start, hrep, eats_lineEnd hline.2]
      simp [hx]
    · have hnone : (Node.rep 1 none true (.atom (.cls false [.digit false]))).run
          Dialect.ruby.flags (.start (x :: s)) = [] := by
        rw [Node.run, funext digit_run]
        simp [iterate, State.eat, State.start, Cursor.start, hx]
      rw [hnone]
      simp [hx]

theorem accepts_line {s : Text} (hline : '\n' ∉ s) :
    SettingType.number.accepts s = true ↔ IsPositive s := by
  have hsearch := search_anchored (r := numberRegex) rfl hline
  have hrun := digitsNode_run hline
  rw [SettingType.accepts, firstMatch, compile_number, Option.bind_some, hsearch]
  change (match (Option.map _ (digitsNode.run Dialect.ruby.flags (.start s)).head?).map _ with
    | none => false
    | some m => decide (0 < toI m)) = true ↔ _
  rw [hrun, IsPositive, ← and_assoc]
  split_ifs with hdigits
  · have htake : s.takeWhile Char.isDigit = s := by
      rw [List.takeWhile_eq_self_iff]
      exact fun c hc => List.all_eq_true.mp hdigits.2 c hc
    have htext : (Match.mk (.start s) ⟨⟨s.reverse, []⟩, fun _ => none⟩).text = s := by
      simp [Match.text, State.remaining, Cursor.start]
    simp only [List.head?_cons, Option.map_some, htext, toI, htake, decide_eq_true_eq, hdigits.1,
      hdigits.2, ne_eq, not_false_eq_true, true_and, and_true]
  · constructor
    · intro h
      contradiction
    · rintro ⟨h, -⟩
      exact absurd h hdigits

theorem accepts_int {n : Int} (hn : 0 < n) :
    SettingType.number.accepts (Value.int n).toS = true := by
  have hdigits : ∀ c ∈ Nat.toDigits 10 n.natAbs, c.isDigit = true := fun c hc =>
    Nat.isDigit_of_mem_toDigits (by omega) (by omega) hc
  have hline : '\n' ∉ Nat.toDigits 10 n.natAbs := by
    intro h
    exact absurd (hdigits '\n' h) (by decide)
  rw [Value.toS, if_neg (by omega), accepts_line hline]
  refine ⟨Nat.toDigits_ne_nil, List.all_eq_true.mpr hdigits, ?_⟩
  rw [Nat.ofDigitChars_ten_toDigits]
  omega

theorem not_limitLine {s : Setting} (hbreak : '\n' ∈ s.value) : ¬ IsLimitLine s.text := by
  rintro ⟨n, ⟨-, hdigits, -⟩, htext⟩
  have hn : '\n' ∉ n := by
    intro h
    exact absurd (List.all_eq_true.mp hdigits '\n' h) (by decide)
  have hcount := congrArg (List.count '\n') htext
  have hvalue : 0 < s.value.count '\n' := List.count_pos_iff.mpr hbreak
  simp only [Setting.text, settingText, List.count_cons, List.count_append,
    List.count_eq_zero.mpr hn] at hcount
  have hkey : readLinesLimit.count '\n' = 0 := by decide
  simp at hcount
  omega

end AggregatedLogging.Throttle
