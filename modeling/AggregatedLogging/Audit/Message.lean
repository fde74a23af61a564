import AggregatedLogging.Audit.Parse

/-! Where the inner message of an audit line stands: between the first ` msg='` and the next
apostrophe, on the first physical line that has both. -/
namespace AggregatedLogging.Audit

open Regex Ruby

def innerOpen : Text := " msg='".toList

def messageRegex : Pattern where
  node := lazyField 1 innerOpen (lazyField 2 ['\''] .empty)
  groups := 2
  names := [("g2".toList, 2), ("g1".toList, 1)]
  flags := Dialect.ruby.flags

theorem compile_message : compile .ruby messagePattern = some messageRegex := rfl

theorem literal_ruby : Dialect.ruby.flags.literal := ⟨rfl, rfl⟩

theorem search_message (s : Text) : search messagePattern s = messageRegex.search s := by
  rw [search, compile_message]
  rfl

/-- The inner message `g2` begins at the first place where one can begin, and ends at the
next apostrophe. -/
structure Encloses (s g1 g2 after : Text) : Prop where
  eq : s = g1 ++ (innerOpen ++ (g2 ++ '\'' :: after))
  inline : '\n' ∉ g1
  inner : '\n' ∉ g2
  unquoted : '\'' ∉ g2
  first : ∀ v, v <:+ g1 → v ≠ [] → ¬ innerOpen <+: v ++ innerOpen

def messageMatch (past g1 g2 after : Text) : Match where
  start := ⟨past, g1 ++ (innerOpen ++ (g2 ++ '\'' :: after))⟩
  final := ⟨⟨'\'' :: (g2.reverse ++ (innerOpen.reverse ++ (g1.reverse ++ past))), after⟩,
    (Captures.set (fun _ => none) 1 g1).set 2 g2⟩

theorem newline_notMem_innerOpen : '\n' ∉ innerOpen := by decide

theorem exists_quote {r : Text} (hr : '\n' ∉ r) (after : Text) :
    ∃ u v, r ++ '\'' :: after = u ++ '\'' :: v ∧ '\n' ∉ u ∧ '\'' ∉ u := by
  obtain ⟨u, v, hsplit, hu⟩ :=
    List.eq_append_cons_of_mem (List.mem_append_right r (List.mem_singleton_self '\''))
  refine ⟨u, v ++ after, ?_, ?_, hu⟩
  · have := congrArg (· ++ after) hsplit
    simpa using this
  · intro hmem
    have : '\n' ∈ r ++ ['\''] := hsplit ▸ List.mem_append_left _ hmem
    rcases List.mem_append.mp this with h | h
    · exact hr h
    · exact absurd (List.mem_singleton.mp h) (by decide)

theorem prefix_of_append_eq {w v r s : Text} (h : v ++ (w ++ s) = w ++ r) : w <+: v ++ w := by
  have hw : w <+: v ++ (w ++ s) := ⟨r, h.symm⟩
  have hvw : v ++ w <+: v ++ (w ++ s) := ⟨s, List.append_assoc v w s⟩
  apply List.prefix_of_prefix_length_le hw hvw
  rw [List.length_append]
  omega

theorem matchAt_message {past s : Text} {m : Match} :
    messageRegex.matchAt ⟨past, s⟩ = some m ↔
      ∃ g1 g2 after, Encloses s g1 g2 after ∧ m = messageMatch past g1 g2 after := by
  rw [Pattern.matchAt, Option.map_eq_some_iff]
  constructor
  · rintro ⟨t, ht, rfl⟩
    obtain ⟨g1, rest, rfl, hg1, hrest, hbefore⟩ := (lazyField_head_eq_some literal_ruby).mp ht
    obtain ⟨g2, after, rfl, hg2, hquote, rfl⟩ := (lazyField_sep_head literal_ruby).mp hrest
    refine ⟨g1, g2, after, ⟨rfl, hg1, hg2, hquote, ?_⟩, rfl⟩
    rintro v ⟨u', rfl⟩ hv ⟨r, hr⟩
    rw [List.mem_append, not_or] at hg1
    have hinline : '\n' ∉ r := by
      intro hmem
      have : '\n' ∈ v ++ innerOpen := hr ▸ List.mem_append_right innerOpen hmem
      rcases List.mem_append.mp this with h | h
      · exact hg1.2 h
      · exact newline_notMem_innerOpen h
    have hboth : '\n' ∉ r ++ g2 := by
      rw [List.mem_append, not_or]
      exact ⟨hinline, hg2⟩
    have hagain : v ++ (innerOpen ++ (g2 ++ '\'' :: after)) =
        innerOpen ++ ((r ++ g2) ++ '\'' :: after) := by
      rw [← List.append_assoc, ← hr]
      simp
    have hnone := hbefore u' v _ rfl hv hagain
    obtain ⟨x, y, hxy, hx, hx'⟩ := exists_quote hboth after
    have hsome := hnone.symm.trans
      ((lazyField_sep_head literal_ruby).mpr ⟨x, y, hxy, hx, hx', rfl⟩)
    contradiction
  · rintro ⟨g1, g2, after, h, rfl⟩
    obtain rfl := h.eq
    refine ⟨_, (lazyField_head_eq_some literal_ruby).mpr ⟨g1, g2 ++ '\'' :: after, rfl, h.inline,
      (lazyField_sep_head literal_ruby).mpr ⟨g2, after, rfl, h.inner, h.unquoted, rfl⟩, ?_⟩, rfl⟩
    rintro u' v' r rfl hv hr
    exact absurd (prefix_of_append_eq hr) (h.first v' (List.suffix_append u' v') hv)

theorem messageParts_encloses {line g1 g2 after : Text} (h : Encloses line g1 g2 after) :
    messageParts line = some (g1, g2) := by
  have hm : messageRegex.matchAt (.start line) = some (messageMatch [] g1 g2 after) :=
    matchAt_message.mpr ⟨g1, g2, after, h, rfl⟩
  rw [messageParts, search_message, Pattern.search_start hm]
  rfl

def HasInner (s : Text) : Prop :=
  ∃ u v, '\n' ∉ u ∧ '\n' ∉ v ∧ u ++ (innerOpen ++ (v ++ ['\''])) <+: s

theorem not_hasInner {past s : Text} (h : messageRegex.matchAt ⟨past, s⟩ = none) :
    ¬ HasInner s := by
  rintro ⟨u, v, hu, hv, rest, rfl⟩
  have hhead : ((lazyField 1 innerOpen (lazyField 2 ['\''] .empty)).run Dialect.ruby.flags
      ⟨⟨past, u ++ (innerOpen ++ (v ++ '\'' :: rest))⟩, fun _ => none⟩).head? = none := by
    have htext : u ++ (innerOpen ++ (v ++ ['\''])) ++ rest =
        u ++ (innerOpen ++ (v ++ '\'' :: rest)) := by simp
    rw [Pattern.matchAt, Option.map_eq_none_iff, htext] at h
    exact h
  rw [lazyField_head literal_ruby.2, List.findSome?_eq_none_iff] at hhead
  have hnone := hhead _ (mem_splits_of_append (all_isInline.mpr hu) _)
  rw [litsThen_run_append literal_ruby.1] at hnone
  obtain ⟨x, y, hxy, hx, hx'⟩ := exists_quote hv rest
  have hsome := hnone.symm.trans ((lazyField_sep_head literal_ruby).mpr ⟨x, y, hxy, hx, hx', rfl⟩)
  contradiction

theorem Encloses.hasInner {s g1 g2 after : Text} (h : Encloses s g1 g2 after) : HasInner s :=
  ⟨g1, g2, h.inline, h.inner, after, by rw [h.eq]; simp⟩

theorem hasInner_line {n : Text} (s : Text) : HasInner (n ++ '\n' :: s) ↔ HasInner n := by
  have hbegins (u v : Text) (hu : '\n' ∉ u) (hv : '\n' ∉ v) :
      u ++ (innerOpen ++ (v ++ ['\''])) <+: n ++ '\n' :: s ↔
        u ++ (innerOpen ++ (v ++ ['\''])) <+: n := by
    apply Text.begins_field
    simp only [List.mem_append, not_or]
    exact ⟨hu, newline_notMem_innerOpen, hv, by decide⟩
  constructor
  · rintro ⟨u, v, hu, hv, h⟩
    exact ⟨u, v, hu, hv, (hbegins u v hu hv).mp h⟩
  · rintro ⟨u, v, hu, hv, h⟩
    exact ⟨u, v, hu, hv, (hbegins u v hu hv).mpr h⟩

def replaceInner (m : Match) (inner : Text) : Text :=
  m.start.past.reverse ++ ((m.group 1).getD [] ++ (innerOpen ++ (inner ++ '\'' ::
    m.final.cursor.rest)))

theorem replaceInner_self {s : Text} {m : Match} (h : search messagePattern s = some m) :
    ∃ g1 g2, m.group 1 = some g1 ∧ m.group 2 = some g2 ∧ '\n' ∉ g2 ∧ '\'' ∉ g2 ∧
      s = replaceInner m g2 := by
  rw [search_message, Pattern.search_eq_some] at h
  obtain ⟨before, rest, rfl, hm, -⟩ := h
  obtain ⟨g1, g2, after, hencloses, rfl⟩ := matchAt_message.mp hm
  refine ⟨g1, g2, rfl, rfl, hencloses.inner, hencloses.unquoted, ?_⟩
  obtain rfl := hencloses.eq
  rw [replaceInner]
  exact congrArg (· ++ _) (List.reverse_reverse before).symm

theorem messageParts_replaceInner {s : Text} {m : Match} (h : search messagePattern s = some m)
    {inner : Text} (hline : '\n' ∉ inner) (hquote : '\'' ∉ inner) :
    messageParts (replaceInner m inner) = some ((m.group 1).getD [], inner) := by
  rw [search_message, Pattern.search_eq_some] at h
  obtain ⟨before, rest, rfl, hm, hbefore⟩ := h
  obtain ⟨g1, g2, after, hencloses, rfl⟩ := matchAt_message.mp hm
  obtain rfl := hencloses.eq
  have hgroup : (messageMatch before.reverse g1 g2 after).group 1 = some g1 := rfl
  have hstart : (messageMatch before.reverse g1 g2 after).start.past.reverse = before :=
    List.reverse_reverse before
  have hrest : (messageMatch before.reverse g1 g2 after).final.cursor.rest = after := rfl
  rw [replaceInner, hgroup, hstart, hrest, Option.getD_some]
  have hnew : Encloses (g1 ++ (innerOpen ++ (inner ++ '\'' :: after))) g1 inner after :=
    ⟨rfl, hencloses.inline, hline, hquote, hencloses.first⟩
  have hsearch : messageRegex.search (before ++ (g1 ++ (innerOpen ++ (inner ++ '\'' :: after)))) =
      some (messageMatch before.reverse g1 inner after) := by
    apply Pattern.search_eq_some.mpr
    refine ⟨before, _, rfl, matchAt_message.mpr ⟨g1, inner, after, hnew, rfl⟩, ?_⟩
    intro u' v' hsplit hv
    have hold := not_hasInner (hbefore u' v' hsplit hv)
    -- Without a line break in front of it, the old message would have been found earlier.
    have hbreak : '\n' ∈ v' := by
      by_contra hbreak
      refine hold ⟨v' ++ g1, g2, ?_, hencloses.inner, after, by simp⟩
      rw [List.mem_append, not_or]
      exact ⟨hbreak, hencloses.inline⟩
    obtain ⟨n, v'', rfl⟩ := List.append_of_mem hbreak
    rw [List.append_assoc, List.cons_append, hasInner_line] at hold
    cases hsome : messageRegex.matchAt
        ⟨u'.reverse, (n ++ '\n' :: v'') ++ (g1 ++ (innerOpen ++ (inner ++ '\'' :: after)))⟩ with
    | none => rfl
    | some m' =>
      obtain ⟨_, _, _, hencloses', -⟩ := matchAt_message.mp hsome
      have hinner := hencloses'.hasInner
      rw [List.append_assoc, List.cons_append, hasInner_line] at hinner
      exact absurd hinner hold
  rw [messageParts, search_message, hsearch]
  rfl

def daemonName : Text := "dockerd-current".toList

def daemonPath : Text := "/usr/bin/dockerd-current".toList

def litsRegex (w : Text) : Pattern := ⟨litsThen w .empty, 0, [], Dialect.ruby.flags⟩

theorem compile_daemon : compile .ruby daemonPattern = some (litsRegex daemonName) := rfl

theorem daemonPath_solid : ∀ c ∈ daemonPath, Ruby.isSpace c = false := Text.forall_of_all (by decide)

theorem compile_daemonPath : compile .ruby daemonPathPattern = some (litsRegex daemonPath) := rfl

theorem search_lits {pattern w : Text} (h : compile .ruby pattern = some (litsRegex w)) (s : Text) :
    (search pattern s).isSome = true ↔ w <:+: s := by
  rw [search, h, Option.bind_some]
  exact Pattern.found_lits rfl rfl s

theorem namesDaemon_iff (exe : Text) : namesDaemon exe = true ↔ daemonName <:+: exe :=
  search_lits compile_daemon exe

theorem search_daemonPath (line : Text) :
    (search daemonPathPattern line).isSome = true ↔ daemonPath <:+: line :=
  search_lits compile_daemonPath line

def isTypeChar (c : Char) : Bool := ('a' ≤ c && c ≤ 'z') || ('A' ≤ c && c ≤ 'Z') || c = '_'

def typeChars : Atom := .cls false [.range 'a' 'z', .range 'A' 'Z', .one '_']

def typeStart : Text := "type=".toList

def typeRegex : Pattern where
  node := .seq (.atom (.at .lineStart)) (litsThen typeStart
    (.seq (.capture 1 (.seq (.rep 1 none true (.atom typeChars)) .empty)) .empty))
  groups := 1
  names := [("type".toList, 1)]
  flags := Dialect.ruby.flags

theorem compile_type : compile .ruby typePattern = some typeRegex := rfl

/-- The type of a record that begins at a position. -/
def typeAt (past rest : Text) : Option Text :=
  if (past = [] ∨ past.head? = some '\n') ∧ typeStart <+: rest ∧
      (rest.drop typeStart.length).takeWhile isTypeChar ≠ [] then
    some ((rest.drop typeStart.length).takeWhile isTypeChar)
  else none

theorem typeChars_run (s : State) :
    (Node.atom typeChars).run Dialect.ruby.flags s = s.eat isTypeChar := by
  rw [Node.run, typeChars, Atom.run]
  congr 1
  funext c
  simp [classHolds, literal_ruby.1, ClassItem.holds, isTypeChar, Bool.or_assoc]

def typeMatch (past rest t : Text) : Match where
  start := ⟨past, rest⟩
  final := ⟨⟨t.reverse ++ (typeStart.reverse ++ past),
    (rest.drop typeStart.length).dropWhile isTypeChar⟩, Captures.set (fun _ => none) 1 t⟩

theorem matchAt_type (past rest : Text) :
    typeRegex.matchAt ⟨past, rest⟩ = (typeAt past rest).map (typeMatch past rest) := by
  have hrun : typeRegex.node.run Dialect.ruby.flags ⟨⟨past, rest⟩, fun _ => none⟩ =
      if past = [] ∨ past.head? = some '\n' then
        (litsThen typeStart (.seq (.capture 1 (.seq (.rep 1 none true (.atom typeChars)) .empty))
          .empty)).run Dialect.ruby.flags ⟨⟨past, rest⟩, fun _ => none⟩
      else [] := by
    have hmulti : Dialect.ruby.flags.multiline = true := rfl
    rw [typeRegex, Node.run, Node.run, Atom.run, Anchor.holds, hmulti]
    by_cases hpast : past = [] ∨ past.head? = some '\n' <;> simp [hpast]
  rw [Pattern.matchAt, typeAt]
  change (typeRegex.node.run Dialect.ruby.flags _).head?.map _ = _
  rw [hrun]
  by_cases hpast : past = [] ∨ past.head? = some '\n'
  · rw [if_pos hpast]
    by_cases hw : typeStart <+: rest
    · obtain ⟨r, rfl⟩ := hw
      rw [litsThen_run_append rfl, captured_run_head typeChars_run, List.drop_left]
      by_cases hr : r.takeWhile isTypeChar = []
      · simp [hr]
      · simp [hr, hpast, typeMatch]
    · rw [litsThen_run_fails rfl hw]
      simp [hw]
  · simp [hpast]

/-- The type of the first record in a text. -/
def typeFrom (past s : Text) : Option Text :=
  (positions past s).findSome? fun c => typeAt c.past c.rest

theorem typeOf_eq (line : Text) : typeOf line = typeFrom [] line := by
  have hgroup (past rest : Text) :
      ((typeRegex.matchAt ⟨past, rest⟩).bind fun m => m.group 1) = typeAt past rest := by
    rw [matchAt_type]
    cases typeAt past rest <;> rfl
  have hfrom (cs : List Cursor) : ((cs.findSome? typeRegex.matchAt).bind fun m => m.group 1) =
      cs.findSome? fun c => typeAt c.past c.rest := by
    induction cs with
    | nil => rfl
    | cons c cs ih =>
      rw [List.findSome?_cons, List.findSome?_cons, ← hgroup c.past c.rest, matchAt_type]
      cases typeAt c.past c.rest with
      | none => exact ih
      | some t => rfl
  rw [typeOf, search, compile_type]
  exact hfrom _

theorem typeFrom_cons (past : Text) (x : Char) (s : Text) :
    typeFrom past (x :: s) = (typeAt past (x :: s)).or (typeFrom (x :: past) s) := by
  rw [typeFrom, positions, List.findSome?_cons]
  cases typeAt past (x :: s) <;> rfl

/-- Inside a physical line no record begins. -/
theorem typeFrom_inline {past u : Text} (hpast : past ≠ []) (hhead : past.head? ≠ some '\n')
    (hu : '\n' ∉ u) (s : Text) : typeFrom past (u ++ s) = typeFrom (u.reverse ++ past) s := by
  induction u generalizing past with
  | nil => rfl
  | cons x u ih =>
    rw [List.mem_cons, not_or] at hu
    have hnone : typeAt past (x :: (u ++ s)) = none := by simp [typeAt, hpast, hhead]
    rw [List.cons_append, typeFrom_cons, hnone, Option.none_or,
      ih (List.cons_ne_nil x past) (by simpa using Ne.symm hu.1) hu.2, List.reverse_cons,
      List.append_assoc]
    rfl

theorem typeFrom_past (x : Char) (past past' s : Text) :
    typeFrom (x :: past) s = typeFrom (x :: past') s := by
  induction s generalizing x past past' with
  | nil => simp [typeFrom, positions, typeAt]
  | cons y s ih =>
    rw [typeFrom_cons, typeFrom_cons, ih y (x :: past) (x :: past')]
    simp [typeAt]

theorem typeAt_blank (past a s s' : Text) :
    typeAt past (a ++ ' ' :: s) = typeAt past (a ++ ' ' :: s') := by
  have hblank : ' ' ∉ typeStart := by decide
  by_cases hw : typeStart <+: a
  · obtain ⟨b, rfl⟩ := hw
    have htake (s : Text) : (b ++ ' ' :: s).takeWhile isTypeChar = b.takeWhile isTypeChar := by
      induction b with
      | nil => rfl
      | cons c b ih => rw [List.cons_append, List.takeWhile_cons, List.takeWhile_cons, ih]
    simp only [typeAt, List.append_assoc, List.drop_left, htake, List.prefix_append]
  · simp only [typeAt, Text.begins_field hblank, hw, false_and, and_false, ↓reduceIte]

theorem filterVirtControl_iff (line : Text) :
    filterVirtControl line = true ↔ typeOf line = some virtControl ∧ daemonPath <:+: line := by
  rw [filterVirtControl, Bool.and_eq_true, decide_eq_true_eq, search_daemonPath]

theorem typeFrom_blank {s s' : Text} (h : ∀ past, typeFrom (' ' :: past) s = typeFrom (' ' :: past) s')
    (past a : Text) : typeFrom past (a ++ ' ' :: s) = typeFrom past (a ++ ' ' :: s') := by
  induction a generalizing past with
  | nil =>
    rw [List.nil_append, List.nil_append, typeFrom_cons, typeFrom_cons, h]
    exact congrArg (fun t : Option Text => t.or _) (typeAt_blank past [] s s')
  | cons c a ih =>
    have htype := typeAt_blank past (c :: a) s s'
    rw [List.cons_append] at htype
    rw [List.cons_append, List.cons_append, typeFrom_cons, typeFrom_cons, ih (c :: past), htype]
    rfl

end AggregatedLogging.Audit
