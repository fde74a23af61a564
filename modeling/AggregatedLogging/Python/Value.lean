import AggregatedLogging.Text
import Mathlib.Data.List.Nodup
import Mathlib.Data.List.Infix

/-! The values a YAML document can hold, with Python's view of them: equality of
keys, truth, membership and conversion to an integer. -/
namespace AggregatedLogging.Python

/-- A key of a mapping up to Python's equality: `true`, `1` and `1.0` are one
key.  Dates are kept as their text. -/
inductive KeyScalar where
  | none
  | number (q : Rat)
  | infinity (negative : Bool)
  | nan
  | str (s : Text)
  | date (s : Text)
  deriving DecidableEq, Repr

/-- Lists in the place of a key become tuples. -/
inductive Key where
  | scalar (s : KeyScalar)
  | tuple (items : List Key)

namespace Key

mutual

def decEq : (a b : Key) → Decidable (a = b)
  | .scalar s, .scalar t =>
    if h : s = t then .isTrue (by rw [h]) else .isFalse (by intro hst; cases hst; exact h rfl)
  | .scalar _, .tuple _ => .isFalse (by intro h; cases h)
  | .tuple _, .scalar _ => .isFalse (by intro h; cases h)
  | .tuple xs, .tuple ys =>
    match decEqList xs ys with
    | .isTrue h => .isTrue (by rw [h])
    | .isFalse h => .isFalse (by intro hxy; cases hxy; exact h rfl)

def decEqList : (xs ys : List Key) → Decidable (xs = ys)
  | [], [] => .isTrue rfl
  | [], _ :: _ => .isFalse (by intro h; cases h)
  | _ :: _, [] => .isFalse (by intro h; cases h)
  | x :: xs, y :: ys =>
    match decEq x y, decEqList xs ys with
    | .isTrue h, .isTrue hs => .isTrue (by rw [h, hs])
    | .isFalse h, _ => .isFalse (by intro hxy; cases hxy; exact h rfl)
    | _, .isFalse hs => .isFalse (by intro hxy; cases hxy; exact hs rfl)

end

instance : DecidableEq Key := decEq

def str (s : Text) : Key := .scalar (.str s)

def text? : Key → Option Text
  | .scalar (.str s) => some s
  | _ => none

@[simp] theorem text?_str (s : Text) : (str s).text? = some s := rfl

theorem text?_eq_some {k : Key} {s : Text} : k.text? = some s ↔ k = str s := by
  constructor
  · intro h
    unfold text? at h
    split at h
    · rw [Option.some.inj h]
      rfl
    · contradiction
  · intro h
    rw [h, text?_str]

@[simp] theorem str_inj {s t : Text} : str s = str t ↔ s = t := by
  constructor
  · intro h
    cases h
    rfl
  · intro h
    rw [h]

end Key

inductive Real where
  | finite (q : Rat)
  | infinity (negative : Bool)
  | nan
  deriving DecidableEq, Repr

/-- A loaded document.  The entries of a mapping stand in the order of the
document, and those of equal keys are not merged yet. -/
inductive Yaml where
  | null
  | bool (b : Bool)
  | int (n : Int)
  | float (x : Real)
  | str (s : Text)
  | date (s : Text)
  | seq (items : List Yaml)
  | map (entries : List (Key × Yaml))

structure Dict (α : Type) where
  entries : List (Key × α)
  nodup : (entries.map Prod.fst).Nodup

namespace Dict

variable {α β : Type}

def empty : Dict α := ⟨[], List.nodup_nil⟩

def inserted (d : Dict α) : List Key := d.entries.map Prod.fst

def get? (d : Dict α) (k : Key) : Option α := d.entries.lookup k

def contains (d : Dict α) (k : Key) : Bool := (d.get? k).isSome

/-- Replace the value of a key in its place, or add the key at the end. -/
def put (k : Key) (v : α) : List (Key × α) → List (Key × α)
  | [] => [(k, v)]
  | (j, w) :: rest => if j = k then (j, v) :: rest else (j, w) :: put k v rest

theorem mem_put_keys {k : Key} {v : α} {l : List (Key × α)} {j : Key} :
    j ∈ (put k v l).map Prod.fst ↔ j = k ∨ j ∈ l.map Prod.fst := by
  induction l with
  | nil => simp [put]
  | cons p l ih =>
    obtain ⟨i, w⟩ := p
    unfold put
    split
    · rename_i h
      simp [h]
    · simp only [List.map_cons, List.mem_cons, ih]
      tauto

theorem put_nodup {k : Key} {v : α} {l : List (Key × α)} (h : (l.map Prod.fst).Nodup) :
    ((put k v l).map Prod.fst).Nodup := by
  induction l with
  | nil => simp [put]
  | cons p l ih =>
    obtain ⟨i, w⟩ := p
    unfold put
    split
    · exact h
    · rename_i hne
      simp only [List.map_cons, List.nodup_cons, mem_put_keys] at h ⊢
      refine ⟨?_, ih h.2⟩
      rintro (heq | hmem)
      · exact hne heq
      · exact h.1 hmem

theorem lookup_put (k j : Key) (v : α) (l : List (Key × α)) :
    (put k v l).lookup j = if j = k then some v else l.lookup j := by
  induction l with
  | nil =>
    by_cases h : j = k
    · simp [put, h]
    · simp [put, h, List.lookup_cons, beq_false_of_ne h]
  | cons p l ih =>
    obtain ⟨i, w⟩ := p
    unfold put
    by_cases hi : i = k
    · subst hi
      by_cases hj : j = i
      · simp [hj]
      · simp [hj, List.lookup_cons, beq_false_of_ne hj]
    · rw [if_neg hi]
      by_cases hj : j = i
      · subst hj
        simp [hi]
      · simp [List.lookup_cons, beq_false_of_ne hj, ih]

def insert (k : Key) (v : α) (d : Dict α) : Dict α := ⟨put k v d.entries, put_nodup d.nodup⟩

def ofList (l : List (Key × α)) : Dict α := l.foldl (fun d p => d.insert p.1 p.2) empty

@[simp] theorem get?_empty (k : Key) : (empty : Dict α).get? k = none := rfl

theorem get?_insert (k j : Key) (v : α) (d : Dict α) :
    (d.insert k v).get? j = if j = k then some v else d.get? j := lookup_put k j v d.entries

theorem mem_inserted {d : Dict α} {k : Key} : k ∈ d.inserted ↔ (d.get? k).isSome = true := by
  unfold inserted get?
  rw [Option.isSome_iff_ne_none, ne_eq, List.lookup_eq_none_iff, List.mem_map]
  constructor
  · rintro ⟨p, hp, rfl⟩ hall
    simpa using hall p hp
  · intro h
    by_contra hnone
    refine h fun p hp => ?_
    have hne : k ≠ p.1 := fun heq => hnone ⟨p, hp, heq.symm⟩
    simpa using hne

theorem get?_foldl_insert (l : List (Key × α)) (d : Dict α) (k : Key) :
    (l.foldl (fun d p => d.insert p.1 p.2) d).get? k = (l.reverse.lookup k).or (d.get? k) := by
  induction l generalizing d with
  | nil => rfl
  | cons p l ih =>
    obtain ⟨j, v⟩ := p
    rw [List.foldl_cons, ih, get?_insert, List.reverse_cons, List.lookup_append]
    cases hl : l.reverse.lookup k with
    | some v => rfl
    | none =>
      by_cases h : k = j
      · simp [h]
      · simp [h, List.lookup_cons, beq_false_of_ne h]

theorem get?_ofList (l : List (Key × α)) (k : Key) : (ofList l).get? k = l.reverse.lookup k := by
  rw [ofList, get?_foldl_insert, get?_empty, Option.or_none]

theorem lookup_eq_some {l : List (Key × α)} (h : (l.map Prod.fst).Nodup) {k : Key} {v : α} :
    l.lookup k = some v ↔ (k, v) ∈ l := by
  induction l with
  | nil => simp
  | cons p l ih =>
    obtain ⟨j, w⟩ := p
    rw [List.map_cons, List.nodup_cons] at h
    by_cases hk : k = j
    · subst hk
      have hnot : (k, v) ∉ l := fun hmem => h.1 (List.mem_map.mpr ⟨(k, v), hmem, rfl⟩)
      simp [hnot, eq_comm]
    · simp [List.lookup_cons, beq_false_of_ne hk, hk, ih h.2]

theorem get?_ofList_eq_some {l : List (Key × α)} (h : (l.map Prod.fst).Nodup) {k : Key} {v : α} :
    (ofList l).get? k = some v ↔ (k, v) ∈ l := by
  have hreverse : (l.reverse.map Prod.fst).Nodup := by
    rw [List.map_reverse]
    exact (List.reverse_perm _).nodup_iff.mpr h
  rw [get?_ofList, lookup_eq_some hreverse, List.mem_reverse]

theorem mem_of_get?_ofList {l : List (Key × α)} {k : Key} {v : α} (h : (ofList l).get? k = some v) :
    (k, v) ∈ l := by
  rw [get?_ofList, List.lookup_eq_some_iff] at h
  obtain ⟨before, after, hsplit, -⟩ := h
  rw [← List.mem_reverse, hsplit]
  exact List.mem_append_right before List.mem_cons_self

def mapValues (f : α → β) (d : Dict α) : Dict β :=
  ⟨d.entries.map fun p => (p.1, f p.2), by simpa [Function.comp_def] using d.nodup⟩

theorem mapValues_inserted (f : α → β) (d : Dict α) : (d.mapValues f).inserted = d.inserted := by
  simp [inserted, mapValues, Function.comp_def]

theorem mapValues_get? (f : α → β) (d : Dict α) (k : Key) :
    (d.mapValues f).get? k = (d.get? k).map f := by
  obtain ⟨entries, nodup⟩ := d
  induction entries with
  | nil => rfl
  | cons p l ih =>
    obtain ⟨j, v⟩ := p
    have := ih (List.nodup_cons.mp nodup).2
    simp only [mapValues, get?, List.map_cons, List.lookup_cons] at this ⊢
    cases k == j
    · exact this
    · rfl

theorem mapValues_contains (f : α → β) (d : Dict α) (k : Key) :
    (d.mapValues f).contains k = d.contains k := by
  rw [contains, mapValues_get?, Option.isSome_map, contains]

theorem put_map (f : α → β) (k : Key) (v : α) (l : List (Key × α)) :
    put k (f v) (l.map fun p => (p.1, f p.2)) = (put k v l).map fun p => (p.1, f p.2) := by
  induction l with
  | nil => rfl
  | cons p l ih =>
    simp only [List.map_cons, put, ih]
    split <;> rfl

theorem ext_entries {d e : Dict α} (h : d.entries = e.entries) : d = e := by
  cases d
  cases e
  cases h
  rfl

theorem insert_of_get? {d : Dict α} {k : Key} {v : α} (h : d.get? k = some v) : d.insert k v = d := by
  have hput (l : List (Key × α)) (h : l.lookup k = some v) : put k v l = l := by
    induction l with
    | nil => contradiction
    | cons p l ih =>
      obtain ⟨j, w⟩ := p
      unfold put
      by_cases hj : j = k
      · rw [hj, List.lookup_cons_self, Option.some.injEq] at h
        rw [if_pos hj, h]
      · rw [List.lookup_cons, beq_false_of_ne (Ne.symm hj)] at h
        rw [if_neg hj, ih h]
  exact ext_entries (hput d.entries h)

theorem insert_insert (k : Key) (v w : α) (d : Dict α) : (d.insert k v).insert k w = d.insert k w := by
  have hput (l : List (Key × α)) : put k w (put k v l) = put k w l := by
    induction l with
    | nil => simp [put]
    | cons p l ih =>
      obtain ⟨j, u⟩ := p
      by_cases hj : j = k
      · simp [put, hj]
      · simp [put, hj, ih]
  exact ext_entries (hput d.entries)

theorem insert_entries {d : Dict α} {k : Key} {v : α} (h : d.get? k = none) :
    (d.insert k v).entries = d.entries ++ [(k, v)] := by
  have hput (l : List (Key × α)) (h : l.lookup k = none) : put k v l = l ++ [(k, v)] := by
    induction l with
    | nil => rfl
    | cons p l ih =>
      obtain ⟨j, u⟩ := p
      by_cases hj : j = k
      · rw [hj, List.lookup_cons_self] at h
        contradiction
      · rw [List.lookup_cons, beq_false_of_ne (Ne.symm hj)] at h
        rw [put, if_neg hj, ih h]
        rfl
  exact hput d.entries h

def erase (k : Key) (d : Dict α) : Dict α where
  entries := d.entries.filter fun p => p.1 ≠ k
  nodup := (List.filter_sublist.map Prod.fst).nodup d.nodup

theorem get?_erase (k j : Key) (d : Dict α) :
    (d.erase k).get? j = if j = k then none else d.get? j := by
  have hlookup (l : List (Key × α)) :
      (l.filter fun p => p.1 ≠ k).lookup j = if j = k then none else l.lookup j := by
    induction l with
    | nil => simp
    | cons p l ih =>
      obtain ⟨i, v⟩ := p
      by_cases hi : i = k
      · subst hi
        rw [List.filter_cons_of_neg (by simp), ih]
        by_cases hj : j = i
        · rw [if_pos hj, if_pos hj]
        · rw [if_neg hj, if_neg hj, List.lookup_cons, beq_false_of_ne hj]
      · rw [List.filter_cons_of_pos (by simpa using hi), List.lookup_cons, List.lookup_cons, ih]
        by_cases hj : j = i
        · subst hj
          rw [beq_self_eq_true]
          exact (if_neg hi).symm
        · rw [beq_false_of_ne hj]
  exact hlookup d.entries

theorem mapValues_insert (f : α → β) (k : Key) (v : α) (d : Dict α) :
    (d.insert k v).mapValues f = (d.mapValues f).insert k (f v) :=
  ext_entries (put_map f k v d.entries).symm

theorem mapValues_ofList (f : α → β) (l : List (Key × α)) :
    (ofList l).mapValues f = ofList (l.map fun p => (p.1, f p.2)) := by
  have hfold (d : Dict α) : (l.foldl (fun d p => d.insert p.1 p.2) d).mapValues f =
      (l.map fun p => (p.1, f p.2)).foldl (fun d p => d.insert p.1 p.2) (d.mapValues f) := by
    induction l generalizing d with
    | nil => rfl
    | cons p l ih => rw [List.foldl_cons, ih, mapValues_insert, List.map_cons, List.foldl_cons]
  exact hfold empty

end Dict

/-- Dictionaries are iterated in an order that depends on the keys, by their
hashes and the order in which they were inserted. -/
structure Order where
  arrange : List Key → List Key
  perm : ∀ ks, (arrange ks).Perm ks

namespace Order

def insertion : Order := ⟨id, fun _ => .refl _⟩

def keys (o : Order) (d : Dict α) : List Key := o.arrange d.inserted

theorem mem_keys {o : Order} {d : Dict α} {k : Key} :
    k ∈ o.keys d ↔ (d.get? k).isSome = true := by
  rw [keys, (o.perm d.inserted).mem_iff, Dict.mem_inserted]

theorem keys_nodup (o : Order) (d : Dict α) : (o.keys d).Nodup :=
  (o.perm d.inserted).nodup_iff.mpr d.nodup

end Order

inductive ErrorClass where
  | exception
  | valueError
  | typeError
  | attributeError
  | overflowError
  | yamlError
  deriving DecidableEq, Repr

namespace Yaml

def truthy : Yaml → Bool
  | .null => false
  | .bool b => b
  | .int n => n ≠ 0
  | .float (.finite q) => q ≠ 0
  | .float _ => true
  | .str s => !s.isEmpty
  | .date _ => true
  | .seq items => !items.isEmpty
  | .map entries => !entries.isEmpty

def dict? : Yaml → Option (Dict Yaml)
  | .map entries => some (Dict.ofList entries)
  | _ => none

/-- The key of a dictionary that a value stands for; lists and mappings cannot
be hashed. -/
def key? : Yaml → Option Key
  | .null => some (.scalar .none)
  | .bool b => some (.scalar (.number (if b then 1 else 0)))
  | .int n => some (.scalar (.number n))
  | .float (.finite q) => some (.scalar (.number q))
  | .float (.infinity n) => some (.scalar (.infinity n))
  | .float .nan => some (.scalar .nan)
  | .str s => some (.str s)
  | .date s => some (.scalar (.date s))
  | .seq _ | .map _ => none

/-- The test `s in value` for a text. -/
def hasMember (s : Text) : Yaml → Except ErrorClass Bool
  | .str t => .ok (decide (s <:+: t))
  | .seq items => .ok (items.any fun v => v.key? = some (.str s))
  | .map entries => .ok ((Dict.ofList entries).contains (.str s))
  | _ => .error .typeError

end Yaml

def isBlank (c : Char) : Bool :=
  c = ' ' || c = '\t' || c = '\n' || c = '\r' || c = Char.ofNat 11 || c = Char.ofNat 12

def strip (s : Text) : Text := ((s.dropWhile isBlank).reverse.dropWhile isBlank).reverse

def digits? (s : Text) : Option Nat :=
  if s ≠ [] ∧ s.all Char.isDigit then
    some (s.foldl (fun n c => 10 * n + (c.toNat - '0'.toNat)) 0)
  else none

/-- A decimal number with blanks around it and a sign before it, in bytes. -/
def intOfText (s : Text) : Option Int :=
  match strip s with
  | '-' :: ds => (digits? ds).map fun n => -(n : Int)
  | '+' :: ds => (digits? ds).map fun n => (n : Int)
  | ds => (digits? ds).map fun n => (n : Int)

def isAscii (s : Text) : Bool := s.all fun c => c.toNat < 128

def isUnicodeBlank (c : Char) : Bool :=
  (9 ≤ c.toNat && c.toNat ≤ 13) || (0x1C ≤ c.toNat && c.toNat ≤ 0x20) ||
    (0x2000 ≤ c.toNat && c.toNat ≤ 0x200A) ||
    [0x85, 0xA0, 0x1680, 0x180E, 0x2028, 0x2029, 0x202F, 0x205F, 0x3000].contains c.toNat

/-- The zeros of the decimal digits in Unicode; the others stand behind them. -/
def decimalZeros : List Nat :=
  [0x30, 0x660, 0x6F0, 0x7C0, 0x966, 0x9E6, 0xA66, 0xAE6, 0xB66, 0xBE6, 0xC66, 0xCE6, 0xD66, 0xE50,
    0xED0, 0xF20, 0x1040, 0x1090, 0x17E0, 0x1810, 0x1946, 0x19D0, 0x1A80, 0x1A90, 0x1B50, 0x1BB0,
    0x1C40, 0x1C50, 0xA620, 0xA8D0, 0xA900, 0xA9D0, 0xAA50, 0xABF0, 0xFF10, 0x104A0, 0x1D7CE,
    0x1D7D8, 0x1D7E2, 0x1D7EC, 0x1D7F6]

/-- A character of Unicode as `int` reads it. -/
def encodeDecimal (c : Char) : Char :=
  if isUnicodeBlank c then ' '
  else ((decimalZeros.find? fun n => n ≤ c.toNat && c.toNat ≤ n + 9).map fun n =>
    Nat.digitChar (c.toNat - n)).getD c

/-- A document gives texts in ASCII as bytes, and the others in Unicode. -/
def intOfLoaded (s : Text) : Option Int :=
  intOfText (if isAscii s then s else s.map encodeDecimal)

def orValueError (n : Option Int) : Except ErrorClass Int :=
  (n.map Except.ok).getD (.error .valueError)

/-- The conversion `int(value)`; a number with a fraction loses it. -/
def Yaml.toInt : Yaml → Except ErrorClass Int
  | .bool b => .ok (if b then 1 else 0)
  | .int n => .ok n
  | .float (.finite q) => .ok (q.num.tdiv q.den)
  | .float (.infinity _) => .error .overflowError
  | .float .nan => .error .valueError
  | .str s => orValueError (intOfLoaded s)
  | .null | .date _ | .seq _ | .map _ => .error .typeError

/-- The conversion `str(value)` fails on a text that is not ASCII. -/
def Yaml.toStr : Yaml → Except ErrorClass Yaml
  | .str s => if isAscii s then .ok (.str s) else .error .valueError
  | v => .ok v

end AggregatedLogging.Python
