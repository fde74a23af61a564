import AggregatedLogging.Text
import Mathlib.Data.Nat.Init

/-! JSON documents whose numbers are integers, written without blanks between their parts, and a
reader that goes through a text character by character. -/
namespace AggregatedLogging.CompactJson

inductive Value where
  | null
  | bool (b : Bool)
  | number (n : Int)
  | string (s : Text)
  | array (items : List Value)
  | object (members : List (Text × Value))

section Writing

def hexDigit (n : Nat) : Char := if n < 10 then Char.ofNat (48 + n) else Char.ofNat (55 + n)

def escape (c : Char) : Text :=
  if c = '"' then ['\\', '"']
  else if c = '\\' then ['\\', '\\']
  else if c = '\n' then ['\\', 'n']
  else if c = '\r' then ['\\', 'r']
  else if c = '\t' then ['\\', 't']
  else if c.toNat < 32 then
    ['\\', 'u', '0', '0', hexDigit (c.toNat / 16), hexDigit (c.toNat % 16)]
  else [c]

def quote (s : Text) : Text := '"' :: (s.flatMap escape ++ ['"'])

def digits (n : Int) : Text :=
  if n < 0 then '-' :: Nat.toDigits 10 n.natAbs else Nat.toDigits 10 n.natAbs

mutual

def dump : Value → Text
  | .null => "null".toList
  | .bool true => "true".toList
  | .bool false => "false".toList
  | .number n => digits n
  | .string s => quote s
  | .array [] => ['[', ']']
  | .array (v :: vs) => '[' :: (dump v ++ dumpItems vs)
  | .object [] => ['{', '}']
  | .object (m :: ms) => '{' :: (dumpMember m ++ dumpMembers ms)

def dumpItems : List Value → Text
  | [] => [']']
  | v :: vs => ',' :: (dump v ++ dumpItems vs)

def dumpMember : Text × Value → Text
  | (k, v) => quote k ++ ':' :: dump v

def dumpMembers : List (Text × Value) → Text
  | [] => ['}']
  | m :: ms => ',' :: (dumpMember m ++ dumpMembers ms)

end

theorem dump_string (s : Text) : dump (.string s) = quote s := rfl

theorem dump_array_cons (v : Value) (vs : List Value) :
    dump (.array (v :: vs)) = '[' :: (dump v ++ dumpItems vs) := rfl

theorem dump_object_cons (m : Text × Value) (ms : List (Text × Value)) :
    dump (.object (m :: ms)) = '{' :: (dumpMember m ++ dumpMembers ms) := rfl

end Writing

section Reading

/-- An array or an object that is being read, what is finished of it latest first. -/
inductive Frame where
  | items (done : List Value)
  | members (done : List (Text × Value))
  | member (done : List (Text × Value)) (key : Text)

/-- What the next character is a part of. -/
inductive Mode where
  | value
  | firstItem
  | firstKey
  | key
  | colon
  | text (isKey : Bool) (past : Text)
  | escaped (isKey : Bool) (past : Text)
  | code (isKey : Bool) (past : Text) (left n : Nat)
  | minus
  | number (negative : Bool) (n : Nat)
  | word (rest : Text) (v : Value)
  | behind
  | done (v : Value)

abbrev State := Mode × List Frame

def isSpace (c : Char) : Bool := c = ' ' || c = '\t' || c = '\n' || c = '\r'

/-- A value that is finished goes into the innermost frame. -/
def give (v : Value) : List Frame → Option State
  | [] => some (.done v, [])
  | .items done :: frames => some (.behind, .items (v :: done) :: frames)
  | .member done k :: frames => some (.behind, .members ((k, v) :: done) :: frames)
  | .members _ :: _ => none

def digitValue (c : Char) : Nat := c.toNat - '0'.toNat

def stepValue (c : Char) (frames : List Frame) : Option State :=
  if isSpace c then some (.value, frames)
  else if c = '"' then some (.text false [], frames)
  else if c = '{' then some (.firstKey, .members [] :: frames)
  else if c = '[' then some (.firstItem, .items [] :: frames)
  else if c = '-' then some (.minus, frames)
  else if c.isDigit then some (.number false (digitValue c), frames)
  else if c = 'n' then some (.word ['u', 'l', 'l'] .null, frames)
  else if c = 't' then some (.word ['r', 'u', 'e'] (.bool true), frames)
  else if c = 'f' then some (.word ['a', 'l', 's', 'e'] (.bool false), frames)
  else none

def stepKey (c : Char) (frames : List Frame) : Option State :=
  if isSpace c then some (.key, frames)
  else if c = '"' then some (.text true [], frames)
  else none

def endText (isKey : Bool) (s : Text) (frames : List Frame) : Option State :=
  if isKey then
    match frames with
    | .members done :: frames => some (.colon, .member done s :: frames)
    | _ => none
  else give (.string s) frames

def controlOf (c : Char) : Option Char :=
  if c = '"' ∨ c = '\\' ∨ c = '/' then some c
  else if c = 'b' then some (Char.ofNat 8)
  else if c = 'f' then some (Char.ofNat 12)
  else if c = 'n' then some '\n'
  else if c = 'r' then some '\r'
  else if c = 't' then some '\t'
  else none

def hexValue (c : Char) : Option Nat :=
  if c.isDigit then some (c.toNat - 48)
  else if 'A' ≤ c ∧ c ≤ 'F' then some (c.toNat - 55)
  else if 'a' ≤ c ∧ c ≤ 'f' then some (c.toNat - 87)
  else none

def stepBehind (c : Char) : List Frame → Option State
  | .items done :: frames =>
    if c = ',' then some (.value, .items done :: frames)
    else if c = ']' then give (.array done.reverse) frames
    else none
  | .members done :: frames =>
    if c = ',' then some (.key, .members done :: frames)
    else if c = '}' then give (.object done.reverse) frames
    else none
  | _ => none

def stepAfter (c : Char) (s : State) : Option State :=
  if isSpace c then some s
  else match s with
    | (.behind, frames) => stepBehind c frames
    | _ => none

def numberOf (negative : Bool) (n : Nat) : Value := .number (if negative then -n else n)

/-- One more character; `none` for a text that is no document. -/
def step (c : Char) : State → Option State
  | (.value, frames) => stepValue c frames
  | (.firstItem, frames) =>
    if isSpace c then some (.firstItem, frames)
    else if c = ']' then stepBehind c frames
    else stepValue c frames
  | (.firstKey, frames) =>
    if isSpace c then some (.firstKey, frames)
    else if c = '}' then stepBehind c frames
    else stepKey c frames
  | (.key, frames) => stepKey c frames
  | (.colon, frames) =>
    if isSpace c then some (.colon, frames)
    else if c = ':' then some (.value, frames)
    else none
  | (.text isKey past, frames) =>
    if c = '"' then endText isKey past.reverse frames
    else if c = '\\' then some (.escaped isKey past, frames)
    else if c.toNat < 32 then none
    else some (.text isKey (c :: past), frames)
  | (.escaped isKey past, frames) =>
    if c = 'u' then some (.code isKey past 3 0, frames)
    else (controlOf c).map fun d => (.text isKey (d :: past), frames)
  | (.code isKey past left n, frames) =>
    (hexValue c).bind fun d =>
      match left with
      | left + 1 => some (.code isKey past left (16 * n + d), frames)
      | 0 =>
        if (16 * n + d).isValidChar then
          some (.text isKey (Char.ofNat (16 * n + d) :: past), frames)
        else none
  | (.minus, frames) =>
    if c.isDigit then some (.number true (digitValue c), frames) else none
  | (.number negative n, frames) =>
    if c.isDigit then
      if n = 0 then none else some (.number negative (10 * n + digitValue c), frames)
    else (give (numberOf negative n) frames).bind (stepAfter c)
  | (.word rest v, frames) =>
    match rest with
    | [] => none
    | [d] => if c = d then give v frames else none
    | d :: rest => if c = d then some (.word rest v, frames) else none
  | (.behind, frames) => stepAfter c (.behind, frames)
  | (.done v, frames) => stepAfter c (.done v, frames)

def run : Text → State → Option State
  | [], s => some s
  | c :: t, s => (step c s).bind (run t)

def finish : State → Option Value
  | (.done v, []) => some v
  | (.number negative n, []) => some (numberOf negative n)
  | _ => none

def load (s : Text) : Option Value := (run s (.value, [])).bind finish

end Reading

section RoundTrip

variable {frames : List Frame} {t : Text}

theorem run_append (s t : Text) (x : State) : run (s ++ t) x = (run s x).bind (run t) := by
  induction s generalizing x with
  | nil => rfl
  | cons c s ih =>
    rw [List.cons_append, run, run, Option.bind_assoc]
    apply congrArg
    funext y
    exact ih y

theorem run_cons (c : Char) (t : Text) (x : State) : run (c :: t) x = (step c x).bind (run t) := rfl

theorem hexValue_hexDigit : ∀ n < 16, hexValue (hexDigit n) = some n := by decide

theorem run_code {c : Char} (hc : c.toNat < 32) (isKey : Bool) (past : Text) :
    run ('\\' :: 'u' :: '0' :: '0' :: hexDigit (c.toNat / 16) :: hexDigit (c.toNat % 16) :: t)
        (.text isKey past, frames) =
      run t (.text isKey (c :: past), frames) := by
  have hhigh := hexValue_hexDigit (c.toNat / 16) (by omega)
  have hlow := hexValue_hexDigit (c.toNat % 16) (by omega)
  have hcode : 16 * (c.toNat / 16) + c.toNat % 16 = c.toNat := by omega
  have hvalid : c.toNat.isValidChar := c.valid
  change run (hexDigit (c.toNat / 16) :: hexDigit (c.toNat % 16) :: t)
    (.code isKey past 1 0, frames) = _
  rw [run_cons, step, hhigh]
  change run (hexDigit (c.toNat % 16) :: t) (.code isKey past 0 (16 * 0 + c.toNat / 16), frames) = _
  rw [run_cons, step, hlow, Option.bind_some]
  dsimp only
  rw [Nat.mul_zero, Nat.zero_add, hcode, if_pos hvalid, Char.ofNat_toNat]
  rfl

theorem run_escape (c : Char) (isKey : Bool) (past : Text) :
    run (escape c ++ t) (.text isKey past, frames) = run t (.text isKey (c :: past), frames) := by
  unfold escape
  split
  · rename_i h
    subst h
    rfl
  split
  · rename_i h
    subst h
    rfl
  split
  · rename_i h
    subst h
    rfl
  split
  · rename_i h
    subst h
    rfl
  split
  · rename_i h
    subst h
    rfl
  rename_i hquote hslash _ _ _
  split
  · rename_i hcontrol
    exact run_code hcontrol isKey past
  · rename_i hplain
    rw [List.singleton_append, run_cons, step, if_neg hquote, if_neg hslash, if_neg hplain]
    rfl

theorem run_escapes (s : Text) (isKey : Bool) (past : Text) :
    run (s.flatMap escape ++ t) (.text isKey past, frames) =
      run t (.text isKey (s.reverse ++ past), frames) := by
  induction s generalizing past with
  | nil => rfl
  | cons c s ih =>
    rw [List.flatMap_cons, List.append_assoc, run_escape, ih, List.reverse_cons, List.append_assoc]
    rfl

theorem run_text (s : Text) (isKey : Bool) :
    run (s.flatMap escape ++ '"' :: t) (.text isKey [], frames) =
      (endText isKey s frames).bind (run t) := by
  rw [run_escapes, List.append_nil, run_cons, step, if_pos rfl, List.reverse_reverse]

theorem run_key (k : Text) (done : List (Text × Value)) (m : Mode)
    (hm : m = .key ∨ m = .firstKey) :
    run (quote k ++ ':' :: t) (m, .members done :: frames) =
      run t (.value, .member done k :: frames) := by
  have hopen (s : Text) : run ('"' :: s) (m, .members done :: frames) =
      run s (.text true [], .members done :: frames) := by
    rcases hm with hm | hm
    · subst hm
      rfl
    · subst hm
      rfl
  rw [quote, List.cons_append, hopen, List.append_assoc, List.singleton_append, run_text]
  rfl

theorem digitChar_facts : ∀ d < 10, (Nat.digitChar d).isDigit = true ∧
    digitValue (Nat.digitChar d) = d ∧ isSpace (Nat.digitChar d) = false ∧
      Nat.digitChar d ≠ '"' ∧ Nat.digitChar d ≠ '{' ∧ Nat.digitChar d ≠ '[' ∧
        Nat.digitChar d ≠ '-' := by
  decide

theorem run_toDigits {x : State} {negative : Bool}
    (hx : ∀ d < 10, step (Nat.digitChar d) x = some (.number negative d, frames)) (n : Nat) :
    run (Nat.toDigits 10 n ++ t) x = run t (.number negative n, frames) := by
  induction n using Nat.strong_induction_on generalizing t with
  | h n ih =>
    by_cases hn : n < 10
    · rw [Nat.toDigits_of_lt_base hn, List.singleton_append, run_cons, hx n hn]
      rfl
    · have hmod : n % 10 < 10 := Nat.mod_lt n (by decide)
      have hsplit : Nat.toDigits 10 n =
          Nat.toDigits 10 (n / 10) ++ Nat.toDigits 10 (n % 10) := by
        rw [Nat.toDigits_append_toDigits (by decide) (by omega) hmod, Nat.div_add_mod]
      obtain ⟨hdigit, hvalue, -⟩ := digitChar_facts (n % 10) hmod
      rw [hsplit, List.append_assoc, ih (n / 10) (by omega), Nat.toDigits_of_lt_base hmod,
        List.singleton_append, run_cons, step, if_pos hdigit, if_neg (by omega), hvalue,
        Nat.div_add_mod]
      rfl

theorem stepValue_digit {d : Nat} (hd : d < 10) :
    step (Nat.digitChar d) (.value, frames) = some (.number false d, frames) := by
  obtain ⟨hdigit, hvalue, hspace, hquote, hbrace, hbracket, hminus⟩ := digitChar_facts d hd
  rw [step, stepValue, if_neg (Bool.eq_false_iff.mp hspace), if_neg hquote, if_neg hbrace,
    if_neg hbracket, if_neg hminus, if_pos hdigit, hvalue]

theorem stepMinus_digit {d : Nat} (hd : d < 10) :
    step (Nat.digitChar d) (.minus, frames) = some (.number true d, frames) := by
  obtain ⟨hdigit, hvalue, -⟩ := digitChar_facts d hd
  rw [step, if_pos hdigit, hvalue]

/-- The characters behind a value in a frame. -/
def closes (c : Char) : Prop := c = ',' ∨ c = ']' ∨ c = '}'

theorem closes.not_digit {c : Char} (h : closes c) : c.isDigit = false := by
  rcases h with h | h | h
  · subst h
    rfl
  · subst h
    rfl
  · subst h
    rfl

theorem step_given {v : Value} {c : Char} {x : State} (h : give v frames = some x) :
    step c x = stepAfter c x := by
  cases frames with
  | nil =>
    cases h
    rfl
  | cons f frames =>
    cases f with
    | items done =>
      cases h
      rfl
    | members done => contradiction
    | member done k =>
      cases h
      rfl

theorem run_given (v : Value) (c : Char) :
    (give v frames).bind (run (c :: t)) = ((give v frames).bind (stepAfter c)).bind (run t) := by
  cases hgive : give v frames with
  | none => rfl
  | some x =>
    rw [Option.bind_some, run_cons, step_given hgive]
    rfl

theorem run_number (n : Int) {c : Char} (hc : closes c) :
    run (digits n ++ c :: t) (.value, frames) =
      (give (.number n) frames).bind (run (c :: t)) := by
  have hend (negative : Bool) (m : Nat) (hm : numberOf negative m = .number n) :
      run (c :: t) (.number negative m, frames) =
        (give (.number n) frames).bind (run (c :: t)) := by
    rw [run_given, run_cons, step, if_neg (Bool.eq_false_iff.mp hc.not_digit), hm]
  unfold digits
  split
  · rename_i hneg
    have hstart : step '-' (.value, frames) = some (.minus, frames) := rfl
    rw [List.cons_append, run_cons, hstart, Option.bind_some,
      run_toDigits fun d hd => stepMinus_digit hd]
    apply hend
    rw [numberOf, if_pos rfl]
    congr 1
    omega
  · rename_i hpos
    rw [run_toDigits fun d hd => stepValue_digit hd]
    apply hend
    rw [numberOf, if_neg Bool.false_ne_true]
    congr 1
    omega

theorem digits_head (n : Int) :
    ∃ c s, digits n = c :: s ∧ isSpace c = false ∧ c ≠ ']' := by
  unfold digits
  split
  · exact ⟨'-', _, rfl, rfl, by decide⟩
  · obtain ⟨c, s, hs⟩ := List.exists_cons_of_ne_nil (Nat.toDigits_ne_nil (n := n.natAbs) (b := 10))
    have hdigit : c.isDigit = true := by
      apply Nat.isDigit_of_mem_toDigits (b := 10) (n := n.natAbs) (by decide) (by decide)
      rw [hs]
      exact List.mem_cons_self
    refine ⟨c, s, hs, ?_, ?_⟩
    · rw [← Bool.not_eq_true]
      intro hspace
      simp only [isSpace, Bool.or_eq_true, decide_eq_true_eq] at hspace
      rcases hspace with ((hc | hc) | hc) | hc <;> rw [hc] at hdigit <;> contradiction
    · intro hc
      rw [hc] at hdigit
      contradiction

/-- Behind an opening bracket a value is read as anywhere else. -/
theorem dump_head (v : Value) : ∃ c s, dump v = c :: s ∧ isSpace c = false ∧ c ≠ ']' := by
  cases v with
  | null => exact ⟨'n', _, rfl, rfl, by decide⟩
  | bool b =>
    cases b with
    | true => exact ⟨'t', _, rfl, rfl, by decide⟩
    | false => exact ⟨'f', _, rfl, rfl, by decide⟩
  | number n => exact digits_head n
  | string s => exact ⟨'"', _, rfl, rfl, by decide⟩
  | array vs =>
    cases vs with
    | nil => exact ⟨'[', _, rfl, rfl, by decide⟩
    | cons v vs => exact ⟨'[', _, rfl, rfl, by decide⟩
  | object ms =>
    cases ms with
    | nil => exact ⟨'{', _, rfl, rfl, by decide⟩
    | cons m ms => exact ⟨'{', _, rfl, rfl, by decide⟩

theorem run_firstItem (v : Value) :
    run (dump v ++ t) (.firstItem, frames) = run (dump v ++ t) (.value, frames) := by
  obtain ⟨c, s, hs, hspace, hbracket⟩ := dump_head v
  rw [hs, List.cons_append, run_cons, run_cons]
  apply congrArg fun x : Option State => x.bind (run (s ++ t))
  have hvalue : step c (.value, frames) = stepValue c frames := rfl
  rw [hvalue, step, if_neg (Bool.eq_false_iff.mp hspace), if_neg hbracket]

theorem dumpItems_head (vs : List Value) : ∃ c s, dumpItems vs = c :: s ∧ closes c := by
  cases vs with
  | nil => exact ⟨']', [], rfl, .inr (.inl rfl)⟩
  | cons v vs => exact ⟨',', _, rfl, .inl rfl⟩

theorem dumpMembers_head (ms : List (Text × Value)) :
    ∃ c s, dumpMembers ms = c :: s ∧ closes c := by
  cases ms with
  | nil => exact ⟨'}', [], rfl, .inr (.inr rfl)⟩
  | cons m ms => exact ⟨',', _, rfl, .inl rfl⟩

mutual

/-- A value is read back in front of what can stand behind it in a frame. -/
theorem run_dump (v : Value) (frames : List Frame) (t : Text) (c : Char) (hc : closes c) :
    run (dump v ++ c :: t) (.value, frames) = (give v frames).bind (run (c :: t)) := by
  cases v with
  | null => rfl
  | bool b =>
    cases b with
    | true => rfl
    | false => rfl
  | number n => exact run_number n hc
  | string s =>
    rw [dump_string, quote, List.cons_append, List.append_assoc]
    exact run_text s false
  | array vs => exact run_array vs frames (c :: t)
  | object ms => exact run_object ms frames (c :: t)

theorem run_array (vs : List Value) (frames : List Frame) (t : Text) :
    run (dump (.array vs) ++ t) (.value, frames) = (give (.array vs) frames).bind (run t) := by
  cases vs with
  | nil => rfl
  | cons v vs =>
    have hopen (s : Text) : run ('[' :: s) (.value, frames) =
        run s (.firstItem, .items [] :: frames) := rfl
    obtain ⟨c, s, hs, hc⟩ := dumpItems_head vs
    rw [dump_array_cons, List.cons_append, hopen, List.append_assoc, run_firstItem, hs,
      List.cons_append, run_dump v _ _ c hc, ← List.cons_append, ← hs]
    exact run_items vs [v] frames t

theorem run_items (vs done : List Value) (frames : List Frame) (t : Text) :
    run (dumpItems vs ++ t) (.behind, .items done :: frames) =
      (give (.array (done.reverse ++ vs)) frames).bind (run t) := by
  cases vs with
  | nil =>
    rw [List.append_nil]
    rfl
  | cons v vs =>
    have hcomma (s : Text) : run (',' :: s) (.behind, .items done :: frames) =
        run s (.value, .items done :: frames) := rfl
    obtain ⟨c, s, hs, hc⟩ := dumpItems_head vs
    rw [dumpItems, List.cons_append, hcomma, List.append_assoc, hs, List.cons_append,
      run_dump v _ _ c hc, ← List.cons_append, ← hs]
    have hrest := run_items vs (v :: done) frames t
    rw [List.reverse_cons, List.append_assoc] at hrest
    exact hrest

theorem run_member (m : Text × Value) (done : List (Text × Value)) (mode : Mode)
    (hmode : mode = .key ∨ mode = .firstKey) (frames : List Frame) (t : Text) (c : Char)
    (hc : closes c) :
    run (dumpMember m ++ c :: t) (mode, .members done :: frames) =
      run (c :: t) (.behind, .members (m :: done) :: frames) := by
  cases m with
  | mk k v =>
    rw [dumpMember, List.append_assoc, List.cons_append, run_key k done mode hmode,
      run_dump v _ _ c hc]
    rfl

theorem run_object (ms : List (Text × Value)) (frames : List Frame) (t : Text) :
    run (dump (.object ms) ++ t) (.value, frames) = (give (.object ms) frames).bind (run t) := by
  cases ms with
  | nil => rfl
  | cons m ms =>
    have hopen (s : Text) : run ('{' :: s) (.value, frames) =
        run s (.firstKey, .members [] :: frames) := rfl
    obtain ⟨c, s, hs, hc⟩ := dumpMembers_head ms
    rw [dump_object_cons, List.cons_append, hopen, List.append_assoc, hs, List.cons_append,
      run_member m [] _ (.inr rfl) _ _ c hc, ← List.cons_append, ← hs]
    exact run_members ms [m] frames t

theorem run_members (ms done : List (Text × Value)) (frames : List Frame) (t : Text) :
    run (dumpMembers ms ++ t) (.behind, .members done :: frames) =
      (give (.object (done.reverse ++ ms)) frames).bind (run t) := by
  cases ms with
  | nil =>
    rw [List.append_nil]
    rfl
  | cons m ms =>
    have hcomma (s : Text) : run (',' :: s) (.behind, .members done :: frames) =
        run s (.key, .members done :: frames) := rfl
    obtain ⟨c, s, hs, hc⟩ := dumpMembers_head ms
    rw [dumpMembers, List.cons_append, hcomma, List.append_assoc, hs, List.cons_append,
      run_member m done _ (.inl rfl) _ _ c hc, ← List.cons_append, ← hs]
    have hrest := run_members ms (m :: done) frames t
    rw [List.reverse_cons, List.append_assoc] at hrest
    exact hrest

end

end RoundTrip

section Documents

theorem load_dump (ms : List (Text × Value)) : load (dump (.object ms)) = some (.object ms) := by
  have hrun := run_object ms [] []
  rw [List.append_nil] at hrun
  rw [load, hrun]
  rfl

/-- Something is open, or the document is complete. -/
def Held (x : State) : Prop := x.2 ≠ [] ∨ ∃ v, x.1 = .done v

/-- What comes of a step, if anything, is held. -/
def YieldsHeld (o : Option State) : Prop := ∀ y, o = some y → Held y

theorem yields_some {x : State} (h : Held x) : YieldsHeld (some x) := by
  intro y hy
  rw [← Option.some.inj hy]
  exact h

theorem yields_none : YieldsHeld none := by
  intro y hy
  contradiction

theorem yields_ite {q : Prop} [Decidable q] {a b : Option State} (ha : YieldsHeld a)
    (hb : YieldsHeld b) : YieldsHeld (if q then a else b) := by
  split
  · exact ha
  · exact hb

theorem yields_bind {α : Type} {o : Option α} {f : α → Option State}
    (h : ∀ x, o = some x → YieldsHeld (f x)) : YieldsHeld (o.bind f) := by
  intro y hy
  obtain ⟨x, hx, hfx⟩ := Option.bind_eq_some_iff.mp hy
  exact h x hx y hfx

section Held

variable {c : Char} {m : Mode} {frames : List Frame}

theorem yields_open (hframes : frames ≠ []) (m : Mode) : YieldsHeld (some (m, frames)) :=
  yields_some (.inl hframes)

theorem yields_push (m : Mode) (f : Frame) (frames : List Frame) :
    YieldsHeld (some (m, f :: frames)) := yields_open (List.cons_ne_nil f frames) m

theorem give_held (v : Value) (frames : List Frame) : YieldsHeld (give v frames) := by
  cases frames with
  | nil => exact yields_some (.inr ⟨v, rfl⟩)
  | cons f frames =>
    cases f with
    | items done => exact yields_push _ _ _
    | members done => exact yields_none
    | member done k => exact yields_push _ _ _

theorem stepBehind_held (c : Char) (frames : List Frame) : YieldsHeld (stepBehind c frames) := by
  unfold stepBehind
  split
  · exact yields_ite (yields_push _ _ _) (yields_ite (give_held _ _) yields_none)
  · exact yields_ite (yields_push _ _ _) (yields_ite (give_held _ _) yields_none)
  · exact yields_none

theorem stepAfter_held {x : State} (hx : Held x) : YieldsHeld (stepAfter c x) := by
  apply yields_ite (yields_some hx)
  split
  · exact stepBehind_held _ _
  · exact yields_none

theorem stepValue_held (hframes : frames ≠ []) : YieldsHeld (stepValue c frames) := by
  have hopen := yields_open hframes
  unfold stepValue
  apply yields_ite (hopen _)
  apply yields_ite (hopen _)
  apply yields_ite (yields_push _ _ _)
  apply yields_ite (yields_push _ _ _)
  apply yields_ite (hopen _)
  apply yields_ite (hopen _)
  apply yields_ite (hopen _)
  apply yields_ite (hopen _)
  exact yields_ite (hopen _) yields_none

theorem stepKey_held (hframes : frames ≠ []) : YieldsHeld (stepKey c frames) := by
  have hopen := yields_open hframes
  unfold stepKey
  exact yields_ite (hopen _) (yields_ite (hopen _) yields_none)

theorem endText_held (isKey : Bool) (s : Text) (frames : List Frame) :
    YieldsHeld (endText isKey s frames) := by
  unfold endText
  apply yields_ite _ (give_held _ _)
  split
  · exact yields_push _ _ _
  · exact yields_none

theorem step_held (hx : Held (m, frames)) : YieldsHeld (step c (m, frames)) := by
  rcases hx with hframes | ⟨v, hv⟩
  · have hopen := yields_open hframes
    cases m with
    | value => exact stepValue_held hframes
    | firstItem =>
      rw [step]
      exact yields_ite (hopen _) (yields_ite (stepBehind_held _ _) (stepValue_held hframes))
    | firstKey =>
      rw [step]
      exact yields_ite (hopen _) (yields_ite (stepBehind_held _ _) (stepKey_held hframes))
    | key => exact stepKey_held hframes
    | colon =>
      rw [step]
      exact yields_ite (hopen _) (yields_ite (hopen _) yields_none)
    | text isKey past =>
      rw [step]
      apply yields_ite (endText_held _ _ _)
      exact yields_ite (hopen _) (yields_ite yields_none (hopen _))
    | escaped isKey past =>
      rw [step]
      apply yields_ite (hopen _)
      rw [Option.map_eq_bind]
      exact yields_bind fun d _ => hopen _
    | code isKey past left n =>
      apply yields_bind
      intro d _
      cases left with
      | zero => exact yields_ite (hopen _) yields_none
      | succ left => exact hopen _
    | minus =>
      rw [step]
      exact yields_ite (hopen _) yields_none
    | number negative n =>
      rw [step]
      apply yields_ite (yields_ite yields_none (hopen _))
      exact yields_bind fun x hx => stepAfter_held (give_held _ _ x hx)
    | word rest v =>
      cases rest with
      | nil => exact yields_none
      | cons d rest =>
        cases rest with
        | nil => exact yields_ite (give_held _ _) yields_none
        | cons e rest => exact yields_ite (hopen _) yields_none
    | behind => exact stepAfter_held (.inl hframes)
    | done v => exact stepAfter_held (.inl hframes)
  · change m = .done v at hv
    rw [hv]
    exact stepAfter_held (.inr ⟨v, rfl⟩)

end Held

theorem run_held {s : Text} {x y : State} (hx : Held x) (h : run s x = some y) : Held y := by
  induction s generalizing x with
  | nil =>
    cases h
    exact hx
  | cons c s ih =>
    obtain ⟨z, hz, hy⟩ := Option.bind_eq_some_iff.mp h
    exact ih (step_held hx z hz) hy

theorem run_done {s : Text} {v : Value} {y : State} (h : run s (.done v, []) = some y) :
    ∀ c ∈ s, isSpace c = true := by
  induction s with
  | nil => exact List.forall_mem_nil _
  | cons c s ih =>
    obtain ⟨z, hz, hy⟩ := Option.bind_eq_some_iff.mp h
    change stepAfter c (.done v, []) = some z at hz
    unfold stepAfter at hz
    split at hz
    · rename_i hspace
      cases hz
      exact List.forall_mem_cons.mpr ⟨hspace, ih hy⟩
    · contradiction

theorem dump_object_last (ms : List (Text × Value)) : (dump (.object ms)).getLast? = some '}' := by
  have hmembers (ms : List (Text × Value)) : (dumpMembers ms).getLast? = some '}' := by
    induction ms with
    | nil => rfl
    | cons m ms ih =>
      rw [dumpMembers, List.getLast?_cons, List.getLast?_append, ih]
      rfl
  cases ms with
  | nil => rfl
  | cons m ms =>
    rw [dump_object_cons, List.getLast?_cons, List.getLast?_append, hmembers]
    rfl

/-- No proper beginning of an object is a document. -/
theorem load_cut {ms : List (Text × Value)} {p u : Text} (h : dump (.object ms) = p ++ u)
    (hu : u ≠ []) : load p = none := by
  rw [← Option.not_isSome_iff_eq_none, Option.isSome_iff_exists]
  rintro ⟨w, hw⟩
  obtain ⟨y, hy, hfinish⟩ := Option.bind_eq_some_iff.mp hw
  have hwhole : run (p ++ u) (.value, []) = some (.done (.object ms), []) := by
    have hrun := run_object ms [] []
    rw [List.append_nil, h] at hrun
    exact hrun
  have hheld : Held y := by
    cases p with
    | nil =>
      cases hy
      contradiction
    | cons c p =>
      have hc : c = '{' := by
        have hhead := congrArg List.head? h
        cases ms with
        | nil => exact (Option.some.inj hhead).symm
        | cons m ms => exact (Option.some.inj hhead).symm
      subst hc
      exact run_held (x := (.firstKey, [.members []])) (.inl (List.cons_ne_nil _ _)) hy
  have hdone : ∃ v, y = (.done v, []) := by
    unfold finish at hfinish
    split at hfinish
    · exact ⟨_, rfl⟩
    · rcases hheld with hframes | ⟨v, hv⟩
      · exact absurd rfl hframes
      · contradiction
    · contradiction
  obtain ⟨v, hv⟩ := hdone
  subst hv
  rw [run_append, hy, Option.bind_some] at hwhole
  have hlast : u.getLast? = some '}' := by
    have hend := dump_object_last ms
    rw [h, List.getLast?_append] at hend
    cases hlast : u.getLast? with
    | none => exact absurd (List.getLast?_eq_none_iff.mp hlast) hu
    | some c =>
      rw [hlast] at hend
      exact hend
  have hspace := run_done hwhole '}' (List.mem_of_getLast? hlast)
  contradiction

end Documents

section Blanks

mutual

def unbroken : Value → Bool
  | .string s => s.all fun c => c ≠ ' '
  | .array vs => unbrokenItems vs
  | .object ms => unbrokenMembers ms
  | _ => true

def unbrokenItems : List Value → Bool
  | [] => true
  | v :: vs => unbroken v && unbrokenItems vs

def unbrokenMembers : List (Text × Value) → Bool
  | [] => true
  | (k, v) :: ms => k.all (fun c => c ≠ ' ') && unbroken v && unbrokenMembers ms

end

/-- A test that fails for the blank, and for spaces only. -/
structure SplitsBlanks (p : Char → Bool) : Prop where
  blank : p ' ' = false
  space : ∀ c, p c = false → isSpace c = true

variable {p : Char → Bool}

theorem hexDigit_space : ∀ n < 16, isSpace (hexDigit n) = false := by decide

theorem SplitsBlanks.of_not_space (hp : SplitsBlanks p) {c : Char} (h : isSpace c = false) :
    p c = true := by
  rw [← Bool.not_eq_false]
  intro hc
  rw [hp.space c hc] at h
  contradiction

theorem escape_not_space {c : Char} (hc : c ≠ ' ') : ∀ d ∈ escape c, isSpace d = false := by
  unfold escape
  split
  · exact Text.forall_of_all (by decide)
  split
  · exact Text.forall_of_all (by decide)
  split
  · exact Text.forall_of_all (by decide)
  split
  · exact Text.forall_of_all (by decide)
  split
  · exact Text.forall_of_all (by decide)
  rename_i hn hr ht
  split
  · intro d hd
    simp only [List.mem_cons, List.not_mem_nil, or_false] at hd
    rcases hd with hd | hd | hd | hd | hd | hd
    · rw [hd]
      rfl
    · rw [hd]
      rfl
    · rw [hd]
      rfl
    · rw [hd]
      rfl
    · rw [hd]
      exact hexDigit_space _ (by omega)
    · rw [hd]
      exact hexDigit_space _ (by omega)
  · intro d hd
    rw [List.mem_singleton.mp hd]
    simp [isSpace, hc, hn, hr, ht]

theorem escape_all (hp : SplitsBlanks p) (c : Char) : (escape c).all p = decide (c ≠ ' ') := by
  by_cases hc : c = ' '
  · subst hc
    change (p ' ' && true) = false
    rw [hp.blank]
    rfl
  · rw [decide_eq_true hc, List.all_eq_true]
    intro d hd
    exact hp.of_not_space (escape_not_space hc d hd)

theorem quote_all (hp : SplitsBlanks p) (s : Text) : (quote s).all p = s.all fun c => c ≠ ' ' := by
  have hquote : p '"' = true := hp.of_not_space rfl
  have hinner : (s.flatMap escape).all p = s.all fun c => c ≠ ' ' := by
    induction s with
    | nil => rfl
    | cons c s ih => rw [List.flatMap_cons, List.all_append, List.all_cons, ih, escape_all hp]
  rw [quote, List.all_cons, List.all_append, hinner, hquote, List.all_cons, hquote]
  simp

theorem digits_all (hp : SplitsBlanks p) (n : Int) : (digits n).all p = true := by
  have hdigits : ∀ c ∈ Nat.toDigits 10 n.natAbs, p c = true := by
    intro c hc
    have hdigit := Nat.isDigit_of_mem_toDigits (by decide) (by decide) hc
    apply hp.of_not_space
    rw [← Bool.not_eq_true]
    intro hspace
    simp only [isSpace, Bool.or_eq_true, decide_eq_true_eq] at hspace
    rcases hspace with ((h | h) | h) | h <;> rw [h] at hdigit <;> contradiction
  have hminus : p '-' = true := hp.of_not_space rfl
  unfold digits
  split
  · rw [List.all_cons, hminus]
    exact List.all_eq_true.mpr hdigits
  · exact List.all_eq_true.mpr hdigits

theorem lit_all (hp : SplitsBlanks p) {s : Text} (hs : s.all (fun c => !isSpace c) = true) :
    s.all p = true := by
  rw [List.all_eq_true] at hs ⊢
  intro c hc
  exact hp.of_not_space ((Bool.not_eq_true' _).mp (hs c hc))

mutual

theorem dump_all (hp : SplitsBlanks p) (v : Value) : (dump v).all p = unbroken v := by
  cases v with
  | null => exact lit_all hp rfl
  | bool b =>
    cases b with
    | true => exact lit_all hp rfl
    | false => exact lit_all hp rfl
  | number n => exact digits_all hp n
  | string s => exact quote_all hp s
  | array vs =>
    cases vs with
    | nil => exact lit_all hp rfl
    | cons v vs =>
      have hopen : p '[' = true := hp.of_not_space rfl
      rw [dump_array_cons, List.all_cons, List.all_append, dump_all hp v, dumpItems_all hp vs,
        hopen]
      rfl
  | object ms =>
    cases ms with
    | nil => exact lit_all hp rfl
    | cons m ms =>
      have hopen : p '{' = true := hp.of_not_space rfl
      rw [dump_object_cons, List.all_cons, List.all_append, dumpMember_all hp m,
        dumpMembers_all hp ms, hopen]
      rfl

theorem dumpItems_all (hp : SplitsBlanks p) (vs : List Value) :
    (dumpItems vs).all p = unbrokenItems vs := by
  cases vs with
  | nil => exact lit_all hp rfl
  | cons v vs =>
    have hcomma : p ',' = true := hp.of_not_space rfl
    rw [dumpItems, List.all_cons, List.all_append, dump_all hp v, dumpItems_all hp vs, hcomma]
    rfl

theorem dumpMember_all (hp : SplitsBlanks p) (m : Text × Value) :
    (dumpMember m).all p = (m.1.all (fun c => c ≠ ' ') && unbroken m.2) := by
  cases m with
  | mk k v =>
    have hcolon : p ':' = true := hp.of_not_space rfl
    rw [dumpMember, List.all_append, quote_all hp, List.all_cons, dump_all hp v, hcolon]
    rfl

theorem dumpMembers_all (hp : SplitsBlanks p) (ms : List (Text × Value)) :
    (dumpMembers ms).all p = unbrokenMembers ms := by
  cases ms with
  | nil => exact lit_all hp rfl
  | cons m ms =>
    have hcomma : p ',' = true := hp.of_not_space rfl
    rw [dumpMembers, List.all_cons, List.all_append, dumpMember_all hp m, dumpMembers_all hp ms,
      hcomma]
    rfl

end

end Blanks

end AggregatedLogging.CompactJson
