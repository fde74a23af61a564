import AggregatedLogging.Chunks.Sanitized

/-! Which objects of a chunk are kept when no further check is loaded. -/
namespace AggregatedLogging.Chunks

open Wire Ruby

def isString : Object → Bool
  | .str _ | .broken _ | .bin _ => true
  | _ => false

/-- A list whose second member is a map with a string under the index field. -/
def isEvent (field : Text) : Object → Bool
  | .arr items =>
    match items[1]?.getD .nil with
    | .hash entries => isString (Object.entry (Object.isText field) entries)
    | _ => false
  | _ => false

def hasTarget (field : Text) : Object → Bool
  | .hash entries =>
    match Object.entry (Object.isText field) entries with
    | .str _ | .bin _ => true
    | _ => false
  | _ => false

def containsName (field : Text) : Object → Bool
  | .str s => Object.isInside field s
  | .broken s => Object.isInside (Object.utf8 field) s
  | .bin s => ((Object.utf8 field).all Object.isAscii || s.all Object.isAscii) &&
      Object.isInside (Object.utf8 field) s
  | _ => false

/-- Where the methods of other classes let an object pass, or the string of an event
cannot be changed to lower case. -/
inductive Odd (field : Text) : Object → Prop where
  | text {items : List Object} {record : Object} (hrecord : items[1]? = some record)
      (hname : containsName field record = true) : Odd field (.arr items)
  | broken {items : List Object} {entries : List (Object × Object)} {s : Bytes}
      (hrecord : items[1]? = some (.hash entries))
      (hbroken : Object.entry (Object.isText field) entries = .broken s) : Odd field (.arr items)
  | map {entries : List (Object × Object)}
      (hpass : hasTarget field (Object.entry (Object.isInt 1) entries) = true ∨
        containsName field (Object.entry (Object.isInt 1) entries) = true) : Odd field (.hash entries)
  | string {obj record : Object} (hstring : isString obj = true) (hrecord : obj.atIndex 1 = .ok record)
      (hname : containsName field record = true) : Odd field obj

variable {opts : Options}

theorem examine_ok (hcheck : opts.checkRecord = none) (time record : Object) :
    examine opts time record = .ok () ↔
      hasTarget opts.indexField record = true ∨ containsName opts.indexField record = true := by
  unfold examine
  rw [hcheck]
  cases record with
  | hash entries =>
    simp only [Object.atField, hasTarget, containsName]
    cases Object.entry (Object.isText opts.indexField) entries <;>
      simp [Except.bind, Object.downcase]
  | str s =>
    simp only [Object.atField, hasTarget, containsName]
    cases Object.isInside opts.indexField s <;> simp [Except.bind, Object.downcase]
  | broken s =>
    simp only [Object.atField, hasTarget, containsName]
    cases Object.isInside (Object.utf8 opts.indexField) s <;> simp [Except.bind, Object.downcase]
  | bin s =>
    simp only [Object.atField, hasTarget, containsName]
    cases (Object.utf8 opts.indexField).all Object.isAscii || s.all Object.isAscii <;>
      cases Object.isInside (Object.utf8 opts.indexField) s <;>
        simp [Except.bind, Object.downcase]
  | _ => simp [Object.atField, hasTarget, containsName, Except.bind]

theorem inspect_ok (hcheck : opts.checkRecord = none) (obj : Object) :
    (inspect opts obj).isOk = true ↔ ∃ record, obj.atIndex 1 = .ok record ∧
      (hasTarget opts.indexField record = true ∨ containsName opts.indexField record = true) := by
  unfold inspect
  cases htime : obj.atIndex 0 with
  | error e =>
    have hrecord : obj.atIndex 1 = .error e := by
      cases obj <;> first | contradiction | exact htime
    simp [hrecord, Except.isOk, Except.toBool]
  | ok time =>
    cases hrecord : obj.atIndex 1 with
    | error e => simp [Except.isOk, Except.toBool]
    | ok record =>
      simp only [Except.ok.injEq, exists_eq_left']
      rw [← examine_ok hcheck time record]
      cases examine opts time record <;> simp [Except.isOk, Except.toBool]

theorem not_hasTarget {field : Text} {record : Object} (h : isString record = true) :
    hasTarget field record = false := by
  cases record <;> first | contradiction | rfl

theorem isString_charAt (n : Nat) (s : Bytes) :
    Object.charAt n s = .nil ∨ isString (Object.charAt n s) = true := by
  induction n generalizing s with
  | zero =>
    unfold Object.charAt
    split
    · exact .inl rfl
    · unfold Object.firstChar
      split
      · exact .inr rfl
      · exact .inr rfl
  | succ n ih => exact ih _

theorem isString_atIndex {obj record : Object} (hstring : isString obj = true)
    (hrecord : obj.atIndex 1 = .ok record) : record = .nil ∨ isString record = true := by
  cases obj with
  | str s =>
    obtain rfl := Except.ok.inj hrecord
    cases s[1]? with
    | none => exact .inl rfl
    | some c => exact .inr rfl
  | broken s =>
    obtain rfl := Except.ok.inj hrecord
    exact isString_charAt 1 s
  | bin s =>
    obtain rfl := Except.ok.inj hrecord
    cases s[1]? with
    | none => exact .inl rfl
    | some c => exact .inr rfl
  | _ => contradiction

section Exact

variable {field : Text}

theorem odd_arr {items : List Object} : Odd field (.arr items) ↔
    ∃ record, items[1]? = some record ∧ (containsName field record = true ∨
      ∃ entries s, record = .hash entries ∧ Object.entry (Object.isText field) entries = .broken s) := by
  constructor
  · intro h
    cases h with
    | text hrecord hname => exact ⟨_, hrecord, .inl hname⟩
    | broken hrecord hbroken => exact ⟨_, hrecord, .inr ⟨_, _, rfl, hbroken⟩⟩
    | string hstring => contradiction
  · rintro ⟨record, hrecord, hname | ⟨entries, s, rfl, hbroken⟩⟩
    · exact .text hrecord hname
    · exact .broken hrecord hbroken

theorem odd_string {obj record : Object} (hstring : isString obj = true)
    (hrecord : obj.atIndex 1 = .ok record) :
    Odd field obj ↔ containsName field record = true := by
  constructor
  · intro h
    cases h with
    | string _ hrecord' hname =>
      obtain rfl := Except.ok.inj (hrecord.symm.trans hrecord')
      exact hname
    | _ => contradiction
  · exact fun hname => .string hstring hrecord hname

theorem arr_exact (items : List Object) :
    ((hasTarget field (items[1]?.getD .nil) = true ∨
        containsName field (items[1]?.getD .nil) = true) ↔ isEvent field (.arr items) = true) ↔
      ¬ Odd field (.arr items) := by
  rw [odd_arr, isEvent]
  cases items[1]? with
  | none => simp [hasTarget, containsName]
  | some record =>
    simp only [Option.getD_some, Option.some.injEq, exists_eq_left']
    cases record with
    | hash entries =>
      simp only [hasTarget, containsName, Object.hash.injEq, exists_and_left, exists_eq_left']
      generalize Object.entry (Object.isText field) entries = value
      cases value <;> simp [isString]
    | _ => simp [hasTarget, containsName]

theorem hash_exact (entries : List (Object × Object)) :
    ((hasTarget field (Object.entry (Object.isInt 1) entries) = true ∨
        containsName field (Object.entry (Object.isInt 1) entries) = true) ↔
      isEvent field (.hash entries) = true) ↔ ¬ Odd field (.hash entries) := by
  have hodd : Odd field (.hash entries) ↔
      hasTarget field (Object.entry (Object.isInt 1) entries) = true ∨
        containsName field (Object.entry (Object.isInt 1) entries) = true := by
    constructor
    · intro h
      cases h with
      | map hpass => exact hpass
      | string hstring => contradiction
    · exact .map
  have hnot : isEvent field (.hash entries) = false := rfl
  rw [hodd, hnot]
  simp

theorem string_exact {obj : Object} (hstring : isString obj = true) :
    ((∃ record, obj.atIndex 1 = .ok record ∧
        (hasTarget field record = true ∨ containsName field record = true)) ↔
      isEvent field obj = true) ↔ ¬ Odd field obj := by
  have hread : ∃ record, obj.atIndex 1 = .ok record := by
    cases obj <;> first | contradiction | exact ⟨_, rfl⟩
  obtain ⟨record, hrecord⟩ := hread
  have hnot : isEvent field obj = false := by
    cases obj <;> first | contradiction | rfl
  have htarget : hasTarget field record = false := by
    rcases isString_atIndex hstring hrecord with rfl | hrecord
    · rfl
    · exact not_hasTarget hrecord
  rw [odd_string hstring hrecord, hrecord, hnot]
  simp [htarget]

theorem rest_exact {obj : Object} (hevent : isEvent field obj = false) (hstring : isString obj = false)
    (hnone : ¬ ∃ record, obj.atIndex 1 = .ok record ∧
      (hasTarget field record = true ∨ containsName field record = true)) :
    ((∃ record, obj.atIndex 1 = .ok record ∧
        (hasTarget field record = true ∨ containsName field record = true)) ↔
      isEvent field obj = true) ↔ ¬ Odd field obj := by
  have hodd : ¬ Odd field obj := by
    intro hodd
    cases hodd with
    | text hrecord hname =>
      refine hnone ⟨_, ?_, .inr hname⟩
      rw [Object.atIndex, hrecord]
      rfl
    | broken hrecord hbroken =>
      rw [isEvent, hrecord] at hevent
      simp only [Option.getD_some, hbroken] at hevent
      contradiction
    | map hpass => exact hnone ⟨_, rfl, hpass⟩
    | string hyes => exact absurd hyes (by rw [hstring]; exact Bool.false_ne_true)
  exact iff_of_true (iff_of_false hnone (by rw [hevent]; exact Bool.false_ne_true)) hodd

end Exact

/-- An object of a chunk is kept exactly when it is an event, apart from the odd ones. -/
theorem kept_iff (hcheck : opts.checkRecord = none) {objs : List Object} {obj : Object}
    (hobj : obj ∈ objs) :
    (obj ∈ accepted opts objs ↔ isEvent opts.indexField obj = true) ↔ ¬ Odd opts.indexField obj := by
  rw [accepted, List.mem_filter, and_iff_right hobj, inspect_ok hcheck]
  cases obj with
  | arr items => simpa [Object.atIndex] using arr_exact items
  | hash entries => simpa [Object.atIndex] using hash_exact entries
  | str s => exact string_exact rfl
  | broken s => exact string_exact rfl
  | bin s => exact string_exact rfl
  | int n => exact rest_exact rfl rfl (by simp [Object.atIndex, hasTarget, containsName])
  | _ => exact rest_exact rfl rfl (by simp [Object.atIndex])

def uncheckedOptions : Options where
  dir := "/var/lib/fluentd".toList
  dir_literal := rfl
  dlqDir := dropWord
  indexField := "viaq_index_name".toList
  checkRecord := none

def eventOf (index : Object) : Object :=
  .arr [.int 1, .hash [(.str "viaq_index_name".toList, index)]]

theorem kept_iff_event :
    eventOf (.str "a".toList) ∈ accepted uncheckedOptions [.nil, eventOf (.str "a".toList)] ↔
      isEvent "viaq_index_name".toList (eventOf (.str "a".toList)) = true := by
  have hmem : eventOf (.str "a".toList) ∈ [.nil, eventOf (.str "a".toList)] :=
    List.mem_cons_of_mem _ (List.mem_singleton_self _)
  refine (@kept_iff uncheckedOptions rfl _ _ hmem).mpr ?_
  rw [eventOf, odd_arr]
  rintro ⟨record, hrecord, hname | ⟨entries, s, rfl, hbroken⟩⟩
  · obtain rfl := Option.some.inj hrecord
    contradiction
  · obtain rfl := Object.hash.inj (Option.some.inj hrecord)
    contradiction

/-- A record that is a text with the name of the field in it is kept. -/
theorem not_kept_iff_text :
    ¬ (Object.arr [.int 1, .str "viaq_index_name".toList] ∈
        accepted uncheckedOptions [.arr [.int 1, .str "viaq_index_name".toList]] ↔
      isEvent uncheckedOptions.indexField (.arr [.int 1, .str "viaq_index_name".toList]) = true) := by
  have hmem : Object.arr [.int 1, .str "viaq_index_name".toList] ∈
      accepted uncheckedOptions [.arr [.int 1, .str "viaq_index_name".toList]] :=
    List.mem_filter.mpr ⟨List.mem_singleton_self _, by decide +kernel⟩
  intro h
  have hevent := h.mp hmem
  contradiction

end AggregatedLogging.Chunks
