import AggregatedLogging.Audit.Flat

/-! The daemon and the command of an event.  A line whose programs do not name the daemon
is accepted as well, because its path may stand anywhere. -/
namespace AggregatedLogging.Audit

open Regex Ruby

def exePrefix : Text := "exe=".toList

/-- A token of the inner message for a program. -/
def isExe (part : Text) : Bool := exePrefix.isPrefixOf part

theorem pairOf_prefix {part key value : Text} (h : pairOf part = some (key, value)) :
    '=' ∉ key ∧ key ++ ['='] <+: part := by
  rw [pairOf] at h
  split at h
  · rename_i k v rest hsplit
    split at h
    · contradiction
    · obtain ⟨rfl, rfl⟩ := Prod.mk.inj (Option.some.inj h)
      obtain ⟨more, hmore⟩ := splitOn_eq_cons '=' part
      have hprefix : k :: v :: rest <+: part.splitOn '=' :=
        hsplit ▸ List.rdropWhile_prefix List.isEmpty (part.splitOn '=')
      obtain ⟨last, hlast⟩ := hprefix
      have hkey : k = part.takeWhile (· ≠ '=') := by
        rw [hmore] at hlast
        exact (List.cons.inj hlast).1
      constructor
      · intro hmem
        rw [hkey] at hmem
        have := List.mem_takeWhile_imp hmem
        simp at this
      · have hjoin : ['='].intercalate (part.splitOn '=') = part := List.intercalate_splitOn '='
        rw [← hlast, List.cons_append, List.cons_append, List.intercalate_cons_cons] at hjoin
        exact ⟨_, hjoin⟩
  · contradiction

theorem isExe_iff_key {part key value : Text} (h : pairOf part = some (key, value)) :
    isExe part = true ↔ key = exeKey := by
  obtain ⟨hkey, rest, rfl⟩ := pairOf_prefix h
  rw [isExe, List.isPrefixOf_iff_prefix, List.append_assoc, List.singleton_append]
  have hexe : exePrefix = exeKey ++ ['='] := rfl
  rw [hexe, Text.begins_whole (by decide) hkey]

theorem valuesOf_filter {key : Text} {p : Text → Bool}
    (h : ∀ part v, pairOf part = some (key, v) → p part = true) (parts : List Text) :
    valuesOf key (parts.filter p) = valuesOf key parts := by
  induction parts with
  | nil => rfl
  | cons part parts ih =>
    rw [List.filter_cons]
    by_cases hp : p part = true
    · rw [if_pos hp, valuesOf_cons, valuesOf_cons, ih]
    · have hnone : partValue key part = none := by
        rw [partValue]
        cases hpair : pairOf part with
        | none => rfl
        | some q =>
          obtain ⟨k, v⟩ := q
          rw [Option.bind_some]
          apply if_neg
          rintro rfl
          exact hp (h part v hpair)
      rw [if_neg hp, ih, valuesOf_cons, hnone]
      rfl

/-- The tokens for programs stand elsewhere or in another order, all others as before. -/
structure ExesPermuted (parts parts' : List Text) : Prop where
  others : parts'.filter (fun w => !isExe w) = parts.filter fun w => !isExe w
  exes : (parts'.filter isExe).Perm (parts.filter isExe)

section Permuted

variable {parts parts' : List Text} (h : ExesPermuted parts parts')

include h

theorem ExesPermuted.mem_iff (w : Text) : w ∈ parts' ↔ w ∈ parts := by
  have hexes := h.exes.mem_iff (a := w)
  have hothers : w ∈ parts'.filter (fun w => !isExe w) ↔ w ∈ parts.filter fun w => !isExe w := by
    rw [h.others]
  rw [List.mem_filter, List.mem_filter] at hexes hothers
  cases hw : isExe w with
  | true => simpa only [hw, and_true] using hexes
  | false => simpa only [hw, Bool.not_false, and_true] using hothers

theorem ExesPermuted.values {key : Text} (hkey : key ≠ exeKey) :
    valuesOf key parts' = valuesOf key parts := by
  have hother (part v : Text) (hpair : pairOf part = some (key, v)) : (!isExe part) = true := by
    rw [Bool.not_eq_true', ← Bool.not_eq_true, isExe_iff_key hpair]
    exact hkey
  rw [← valuesOf_filter hother parts', h.others, valuesOf_filter hother]

theorem ExesPermuted.perm_exes : (valuesOf exeKey parts').Perm (valuesOf exeKey parts) := by
  have hexe (part v : Text) (hpair : pairOf part = some (exeKey, v)) : isExe part = true :=
    (isExe_iff_key hpair).mpr rfl
  rw [← valuesOf_filter hexe parts', ← valuesOf_filter hexe parts]
  exact ((h.exes.filterMap pairOf).filter _).map Prod.snd

end Permuted

/-- One program names the daemon and the other one does not. -/
def OneOfEach (exes : List Text) : Prop :=
  ∃ daemon command, namesDaemon daemon = true ∧ namesDaemon command = false ∧
    exes.Perm [daemon, command]

theorem renamed_congr {names : List (Text × Text)} {target target' : Entries}
    (h : ∀ n ∈ names, target.lookup n.2 = target'.lookup n.2) :
    renamed names target = renamed names target' := by
  apply List.filterMap_congr
  intro n hn
  rw [h n hn]

theorem eventAt_permuted {parts parts' : List Text} (h : ExesPermuted parts parts')
    (hone : OneOfEach (valuesOf exeKey parts)) (hostname : Option Text) (clock : Clock)
    (seconds : Decimal) (host : Entries) :
    eventAt hostname clock seconds host (parseMsg parts') =
      eventAt hostname clock seconds host (parseMsg parts) := by
  obtain ⟨daemon, command, hdaemon, hcommand, hperm⟩ := hone
  obtain ⟨hexe, hrest⟩ := exeOf_pair_perm hdaemon hcommand hperm
  obtain ⟨hexe', hrest'⟩ := exeOf_pair_perm hdaemon hcommand (h.perm_exes.trans hperm)
  have hnames : renamed dockerNames (parseMsg parts') = renamed dockerNames (parseMsg parts) := by
    apply renamed_congr
    intro n hn
    rw [lookup_parseMsg, lookup_parseMsg, h.values (dockerNames_ne_exe n hn)]
  rw [eventAt, eventAt, hnames, hexe, hexe', hrest, hrest']

theorem typeOf_replaceInner (m : Match) {inner inner' : Text} (h : '\n' ∉ inner)
    (h' : '\n' ∉ inner') : typeOf (replaceInner m inner) = typeOf (replaceInner m inner') := by
  have hafter {u : Text} (hu : '\n' ∉ u) (past : Text) :
      typeFrom (' ' :: past) ("msg='".toList ++ (u ++ '\'' :: m.final.cursor.rest)) =
        typeFrom ['\''] m.final.cursor.rest := by
    have hinline : '\n' ∉ "msg='".toList ++ (u ++ ['\'']) := by
      simp only [List.mem_append, not_or]
      exact ⟨by decide, hu, by decide⟩
    have hsplit : "msg='".toList ++ (u ++ '\'' :: m.final.cursor.rest) =
        ("msg='".toList ++ (u ++ ['\''])) ++ m.final.cursor.rest := by simp
    rw [hsplit, typeFrom_inline (List.cons_ne_nil ' ' past) (by simp) hinline]
    simp only [List.reverse_append, List.reverse_cons, List.reverse_nil, List.nil_append,
      List.cons_append]
    exact typeFrom_past '\'' _ [] m.final.cursor.rest
  have hsplit (u : Text) : replaceInner m u =
      (m.start.past.reverse ++ (m.group 1).getD []) ++
        ' ' :: ("msg='".toList ++ (u ++ '\'' :: m.final.cursor.rest)) := by
    rw [replaceInner, ← List.append_assoc]
    rfl
  rw [typeOf_eq, typeOf_eq, hsplit, hsplit]
  apply typeFrom_blank
  intro past
  rw [hafter h, hafter h']

theorem daemonPath_replaceInner (m : Match) (inner : Text) :
    daemonPath <:+: replaceInner m inner ↔
      daemonPath <:+: m.start.past.reverse ++ (m.group 1).getD [] ∨
        (∃ w ∈ words inner, daemonPath <:+: w) ∨ daemonPath <:+: m.final.cursor.rest := by
  have hsplit : replaceInner m inner =
      (m.start.past.reverse ++ (m.group 1).getD []) ++
        ' ' :: ("msg=".toList ++ '\'' :: (inner ++ '\'' :: m.final.cursor.rest)) := by
    rw [replaceInner, ← List.append_assoc]
    rfl
  have hmsg : ¬ daemonPath <:+: "msg=".toList := by decide
  rw [hsplit, infix_append_cons (by decide), infix_append_cons (by decide),
    infix_append_cons (by decide), infix_words (by decide) daemonPath_solid inner]
  simp only [hmsg, false_or]

theorem filterVirtControl_permuted (m : Match) {inner inner' : Text} (h : '\n' ∉ inner)
    (h' : '\n' ∉ inner') (hperm : ExesPermuted (words inner) (words inner')) :
    filterVirtControl (replaceInner m inner') = filterVirtControl (replaceInner m inner) := by
  rw [Bool.eq_iff_iff, filterVirtControl_iff, filterVirtControl_iff, daemonPath_replaceInner,
    daemonPath_replaceInner, typeOf_replaceInner m h' h]
  simp only [hperm.mem_iff]

theorem parseText_permuted {hostname : Option Text} {clock : Clock} {s : Text} {m : Match}
    (hm : search messagePattern s = some m) {inner' : Text} (hline : '\n' ∉ inner')
    (hquote : '\'' ∉ inner') (hperm : ExesPermuted (words ((m.group 2).getD [])) (words inner'))
    (hone : OneOfEach (valuesOf exeKey (words ((m.group 2).getD [])))) :
    parseText hostname clock (replaceInner m inner') = parseText hostname clock s := by
  obtain ⟨g1, g2, hg1, hg2, hline2, -, hs⟩ := replaceInner_self hm
  rw [hg2, Option.getD_some] at hperm hone
  have hparts : messageParts s = some (g1, g2) := by
    rw [messageParts, hm, Option.bind_some, hg1, hg2]
    rfl
  have hparts' := messageParts_replaceInner hm hline hquote
  rw [hg1, Option.getD_some] at hparts'
  have hfilter := filterVirtControl_permuted m hline2 hline hperm
  rw [← hs] at hfilter
  by_cases haccepted : filterVirtControl s = true
  · rw [parseText_parts haccepted hparts, parseText_parts (hfilter.trans haccepted) hparts']
    have hnormalize (host : Entries) : normalize hostname clock host (parseMsg (words inner')) =
        normalize hostname clock host (parseMsg (words g2)) := by
      simp only [normalize, eventAt_permuted hperm hone]
    simp only [hnormalize]
  · rw [parseText, parseText, hfilter, if_neg haccepted, if_neg haccepted]

/-- The second text is the first one with its tokens for programs in another order; one of
them names the daemon and one does not. -/
def Permutes (s s' : Text) : Prop :=
  ∃ m inner, search messagePattern s = some m ∧
    OneOfEach (valuesOf exeKey (words ((m.group 2).getD []))) ∧
    '\n' ∉ inner ∧ '\'' ∉ inner ∧ ExesPermuted (words ((m.group 2).getD [])) (words inner) ∧
    s' = replaceInner m inner

def Line.exes (line : Line) : List Text := valuesOf exeKey line.innerParts

/-- The program of an event is the daemon and its command is not, in every order. -/
structure ToldApart (hostname : Option Text) (clock : Clock) (line : Line) (event : Event) :
    Prop where
  exe : ∀ f, event.trusted.lookup hostExe = some f →
    ∃ e ∈ line.exes, namesDaemon e = true ∧ f = .one e
  command : ∀ f, event.docker.lookup dockerCommand = some f →
    ∃ e ∈ line.exes, namesDaemon e = false ∧ f = .one e
  permuted : ∀ s s', line = .text s → Permutes s s' →
    parseAuditLine hostname clock (.text s') = .ok (some event)

theorem mem_of_getLast?_merged {exes : List Text} {p : Text → Bool} {e : Text}
    (h : ((merged exes).filter p).getLast? = some e) : e ∈ exes ∧ p e = true := by
  have hmem := List.mem_of_getLast? h
  rw [List.mem_filter, (perm_merged exes).mem_iff] at hmem
  exact hmem

theorem command_told (parts : List Text) (f : Field) (h : commandOf (parseMsg parts) = some f) :
    ∃ e ∈ valuesOf exeKey parts, namesDaemon e = false ∧ f = .one e := by
  rw [commandOf_eq (lookup_parseMsg parts exeKey)] at h
  split at h
  · contradiction
  · obtain ⟨e, he, rfl⟩ := Option.map_eq_some_iff.mp h
    obtain ⟨hmem, hnot⟩ := mem_of_getLast?_merged he
    exact ⟨e, hmem, by simpa using hnot, rfl⟩

theorem exe_told (parts : List Text) :
    (∀ f, exeOf (parseMsg parts) = some f →
      ∃ e ∈ valuesOf exeKey parts, namesDaemon e = true ∧ f = .one e) ↔
      valuesOf exeKey parts = [] ∨ ∃ e ∈ valuesOf exeKey parts, namesDaemon e = true := by
  rw [exeOf_eq (lookup_parseMsg parts exeKey)]
  constructor
  · intro h
    by_cases hnil : valuesOf exeKey parts = []
    · exact .inl hnil
    · obtain ⟨f, hf⟩ := Option.isSome_iff_exists.mp (fieldOf_isSome.mpr hnil)
      obtain ⟨e, he, hdaemon, -⟩ := h _ (by rw [hf, Option.map_some])
      exact .inr ⟨e, he, hdaemon⟩
  · rintro (hnil | ⟨e, he, hdaemon⟩) f hf
    · rw [hnil] at hf
      contradiction
    · obtain ⟨g, -, rfl⟩ := Option.map_eq_some_iff.mp hf
      cases hlast : ((merged (valuesOf exeKey parts)).filter namesDaemon).getLast? with
      | none =>
        rw [List.getLast?_eq_none_iff, List.filter_eq_nil_iff] at hlast
        exact absurd hdaemon (hlast e ((perm_merged _).mem_iff.mpr he))
      | some e' =>
        obtain ⟨hmem, hdaemon'⟩ := mem_of_getLast?_merged hlast
        exact ⟨e', hmem, hdaemon', rfl⟩

theorem toldApart_iff {hostname : Option Text} {clock : Clock} {line : Line} {event : Event}
    (h : parseAuditLine hostname clock line = .ok (some event)) :
    ToldApart hostname clock line event ↔
      line.exes = [] ∨ ∃ e ∈ line.exes, namesDaemon e = true := by
  rw [Line.exes, ← exe_told]
  obtain ⟨stamp, hevent⟩ := parseAuditLine_eq_some h
  have hexe : event.trusted.lookup hostExe = exeOf (parseMsg line.innerParts) := by
    rw [hevent, lookup_hostExe]
  constructor
  · intro htold f hf
    exact htold.exe f (hexe.trans hf)
  · intro htold
    refine ⟨fun f hf => htold f (hexe.symm.trans hf), ?_, ?_⟩
    · intro f hf
      rw [hevent, lookup_dockerCommand] at hf
      exact command_told line.innerParts f hf
    · rintro s s' rfl ⟨m, inner, hm, hone, hline, hquote, hperm, rfl⟩
      exact (parseText_permuted hm hline hquote hperm hone).trans h

/-- The programs of the sample line. -/
theorem toldApart_iff_exec :
    ToldApart none sampleClock (.text execLine.text) execEvent := by
  refine (toldApart_iff parse_execLine).mpr (.inr ⟨daemonValue, ?_, by decide +kernel⟩)
  rw [Line.exes, innerParts_text]
  decide +kernel

def reasonLine : TokenLine :=
  stamped [token 0 "pid".toList "14500".toList (Eq.refl true) (Eq.refl true)]
    [token 0 exeKey "entrypoint".toList (Eq.refl true) (Eq.refl true),
      token 0 "reason".toList daemonPath (Eq.refl true) (Eq.refl true)]
    ⟨_, List.mem_of_getLast? rfl, List.infix_rfl⟩

/-- The program of the container is taken for the daemon. -/
theorem not_toldApart_reason :
    ∃ event, parseAuditLine none sampleClock (.text reasonLine.text) = .ok (some event) ∧
      event.trusted.lookup hostExe = some (.one "entrypoint".toList) ∧
      ¬ ToldApart none sampleClock (.text reasonLine.text) event := by
  have hevent : parseAuditLine none sampleClock (.text reasonLine.text) = .ok (some
      ⟨sampleTime, none,
        [("PID".toList, .one "14500".toList), (hostExe, .one "entrypoint".toList)],
        [("reason".toList, .one daemonPath)]⟩) :=
    reasonLine.parse_text.mpr ⟨by decide +kernel, by decide +kernel, by decide +kernel⟩
  have hexe : List.lookup hostExe
      [("PID".toList, Field.one "14500".toList), (hostExe, .one "entrypoint".toList)] =
        some (.one "entrypoint".toList) := by decide +kernel
  refine ⟨_, hevent, hexe, ?_⟩
  intro htold
  obtain ⟨e, -, hdaemon, he⟩ := htold.exe _ hexe
  rw [← Field.one.inj he] at hdaemon
  have hnot : namesDaemon "entrypoint".toList = false := by decide +kernel
  exact Bool.false_ne_true (hnot.symm.trans hdaemon)

end AggregatedLogging.Audit
