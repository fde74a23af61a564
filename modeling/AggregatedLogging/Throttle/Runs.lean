import AggregatedLogging.Throttle.Generator
import AggregatedLogging.Throttle.Transfer

/-! What a run of the generator leaves behind: the files that it writes, one for
each project with an accepted setting, and the positions that it moves. -/
namespace AggregatedLogging.Throttle

open Python (Dict Key Order)

section Members

variable (env : Env) (clock : Nat → Day)

/-- A project with the settings that are accepted. -/
def throttleProject (l : Progress) (p : Text × List Setting) : Except Stopped Progress :=
  (p.2.foldlM (fun w s => writeToFile env clock p.1 s w) l.world).map fun w =>
    ⟨closeFile env clock p.1 w, l.excluded ++ p.2.flatMap fun _ => excludedPatterns env p.1, true⟩

theorem foldlM_evaluateSetting (name : Text) (settings : List (Key × Value)) (l : Progress)
    (needclose : Bool) :
    settings.foldlM (evaluateSetting env clock name) (l, needclose) =
      ((acceptedOf settings).foldlM (fun w s => writeToFile env clock name s w) l.world).map fun w =>
        (⟨w, l.excluded ++ (acceptedOf settings).flatMap fun _ => excludedPatterns env name,
          l.throttling || !(acceptedOf settings).isEmpty⟩,
          needclose || !(acceptedOf settings).isEmpty) := by
  induction settings generalizing l needclose with
  | nil => simp [acceptedOf, Except.map, pure, Except.pure]
  | cons s settings ih =>
    obtain ⟨key, value⟩ := s
    rw [List.foldlM_cons, evaluateSetting]
    by_cases hvalid : validate key value = true
    · obtain ⟨rfl, -⟩ := validate_eq_true.mp hvalid
      have hcons : acceptedOf ((Key.str readLinesLimit, value) :: settings) =
          ⟨readLinesLimit, value.toS⟩ :: acceptedOf settings := by
        rw [acceptedOf, List.filterMap_cons, if_pos hvalid, Key.text?_str]
        rfl
      rw [if_pos hvalid, hcons, List.foldlM_cons, Key.text?_str, Option.getD_some]
      cases hwrite : writeToFile env clock name ⟨readLinesLimit, value.toS⟩ l.world with
      | error e => rfl
      | ok w =>
        change List.foldlM (evaluateSetting env clock name) _ settings = _
        rw [ih]
        simp [List.flatMap_cons, bind, Except.bind]
    · have hcons : acceptedOf ((key, value) :: settings) = acceptedOf settings := by
        rw [acceptedOf, List.filterMap_cons, if_neg hvalid]
        rfl
      rw [if_neg hvalid, hcons]
      exact ih l needclose

theorem evaluateProject_eq (l : Progress) (m : Key × Options) :
    evaluateProject env clock l m =
      match (memberSettings m).filter fun p => p.2 ≠ [] with
      | none => .ok l
      | some p => throttleProject env clock l p := by
  obtain ⟨key, options⟩ := m
  unfold evaluateProject memberSettings
  cases key.text? with
  | none => rfl
  | some name =>
    cases options with
    | other => rfl
    | hash settings =>
      simp only
      rw [foldlM_evaluateSetting]
      cases hset : acceptedOf settings.entries with
      | nil => simp [Except.map, pure, Except.pure, Option.filter_some]
      | cons s ss =>
        simp only [List.isEmpty_cons, Bool.not_false, Bool.or_true, throttleProject, ne_eq,
          reduceCtorEq, not_false_eq_true, decide_true, Option.filter_some, ↓reduceIte]
        cases List.foldlM (fun w s => writeToFile env clock name s w) l.world (s :: ss) <;> rfl

theorem foldlM_evaluateProject (parsed : Dict Options) (l : Progress) :
    parsed.entries.foldlM (evaluateProject env clock) l =
      (throttled parsed).foldlM (throttleProject env clock) l := by
  rw [throttled]
  generalize parsed.entries = entries
  induction entries generalizing l with
  | nil => rfl
  | cons m entries ih =>
    rw [List.foldlM_cons, evaluateProject_eq, List.filterMap_cons]
    cases hm : memberSettings m with
    | none => exact ih l
    | some p =>
      rw [Option.filter_some, List.filter_cons]
      by_cases hp : p.2 = []
      · simp only [hp, ne_eq, not_true_eq_false, decide_false, Bool.false_eq_true, ↓reduceIte]
        exact ih l
      · simp only [hp, ne_eq, not_false_eq_true, decide_true, ↓reduceIte, List.foldlM_cons]
        cases throttleProject env clock l p with
        | error e => rfl
        | ok l' => exact ih l'

end Members

theorem acceptedOf_dict (settings : Dict Value) :
    acceptedOf settings.entries = [] ∨ ∃ s, acceptedOf settings.entries = [s] := by
  obtain ⟨entries, hnodup⟩ := settings
  have hnone (l : List (Key × Value)) (h : Key.str readLinesLimit ∉ l.map Prod.fst) :
      acceptedOf l = [] := by
    rw [List.eq_nil_iff_forall_not_mem]
    intro s hs
    obtain ⟨-, -, v, hmem, -⟩ := mem_acceptedOf.mp hs
    exact h (List.mem_map_of_mem hmem)
  induction entries with
  | nil => exact .inl rfl
  | cons m entries ih =>
    obtain ⟨key, value⟩ := m
    rw [List.map_cons, List.nodup_cons] at hnodup
    by_cases hvalid : validate key value = true
    · obtain ⟨rfl, -⟩ := validate_eq_true.mp hvalid
      have hrest := hnone entries hnodup.1
      unfold acceptedOf at hrest
      refine .inr ⟨⟨readLinesLimit, value.toS⟩, ?_⟩
      rw [acceptedOf, List.filterMap_cons, if_pos hvalid, hrest, Key.text?_str]
      rfl
    · have hskip : acceptedOf ((key, value) :: entries) = acceptedOf entries := by
        rw [acceptedOf, List.filterMap_cons, if_neg hvalid]
        rfl
      rw [hskip]
      exact ih hnodup.2

theorem mem_throttled {parsed : Dict Options} {p : Text × List Setting} :
    p ∈ throttled parsed ↔ ∃ settings, (Key.str p.1, Options.hash settings) ∈ parsed.entries ∧
      acceptedOf settings.entries = p.2 ∧ p.2 ≠ [] := by
  rw [throttled, List.mem_filter, List.mem_filterMap, decide_eq_true_eq]
  constructor
  · rintro ⟨⟨⟨key, options⟩, hmem, hm⟩, hne⟩
    unfold memberSettings at hm
    split at hm
    · rename_i name settings hkey hopts
      obtain rfl := Option.some.inj hm
      obtain rfl : key = Key.str name := Key.text?_eq_some.mp hkey
      obtain rfl : options = .hash settings := hopts
      exact ⟨settings, hmem, rfl, hne⟩
    · contradiction
  · rintro ⟨settings, hmem, haccepted, hne⟩
    refine ⟨⟨_, hmem, ?_⟩, hne⟩
    simp [memberSettings, haccepted]

theorem throttled_single {parsed : Dict Options} {p : Text × List Setting}
    (hp : p ∈ throttled parsed) : ∃ s, p.2 = [s] := by
  obtain ⟨settings, -, haccepted, hne⟩ := mem_throttled.mp hp
  rcases acceptedOf_dict settings with hnil | ⟨s, hs⟩
  · rw [← haccepted] at hne
    exact absurd hnil hne
  · exact ⟨s, haccepted ▸ hs⟩

theorem throttled_nodup (parsed : Dict Options) : ((throttled parsed).map Prod.fst).Nodup := by
  obtain ⟨entries, hnodup⟩ := parsed
  have hsub : (((entries.filterMap memberSettings).filter fun p => p.2 ≠ []).map
      fun p => Key.str p.1).Sublist (entries.map Prod.fst) := by
    clear hnodup
    induction entries with
    | nil => exact .slnil
    | cons m entries ih =>
      rw [List.filterMap_cons, List.map_cons]
      cases hm : memberSettings m with
      | none => exact ih.cons m.1
      | some p =>
        have hkey : m.1 = Key.str p.1 := by
          unfold memberSettings at hm
          split at hm
          · rename_i name settings hkey hopts
            obtain rfl := Option.some.inj hm
            exact Key.text?_eq_some.mp hkey
          · contradiction
        rw [List.filter_cons]
        split
        · rw [List.map_cons, ← hkey]
          exact ih.cons_cons m.1
        · exact ih.cons m.1
  have hkeys := hsub.nodup hnodup
  rw [show (fun p : Text × List Setting => Key.str p.1) = Key.str ∘ Prod.fst from rfl,
    ← List.map_map] at hkeys
  exact hkeys.of_map Key.str

/-- The last eight characters before the suffix are the day. -/
theorem getFileName_inj {env : Env} {n m : Text} {a b : Day} :
    env.getFileName n a = env.getFileName m b ↔ n = m ∧ a.digits = b.digits := by
  constructor
  · intro h
    have hname := List.append_cancel_left h
    have hlength : ('-' :: (a.digits ++ ".conf".toList)).length =
        ('-' :: (b.digits ++ ".conf".toList)).length := by
      simp [a.digits_length, b.digits_length]
    obtain ⟨hn, hrest⟩ := List.append_inj' hname hlength
    exact ⟨hn, List.append_cancel_right (List.cons.inj hrest).2⟩
  · rintro ⟨rfl, hdigits⟩
    rw [Env.getFileName, Env.getFileName, hdigits]

section Projects

variable (env : Env) (clock : Nat → Day)

/-- The patterns under which the entries of a project are looked up. -/
def seedMoves (project : Text) : List Text :=
  if project = operations then env.defaultOpsProjects else [project]

def movedBy (project : Text) (fs : Files) : Files :=
  ((seedMoves env project).foldlM (fun fs p =>
    movePosFileProjectEntry fs env.contPosFile (seedPosFile env project) p) fs).getD fs

/-- The pieces of the file of a project.  Its end is missing when the day has
changed in between. -/
def throttledPieces (asked : Nat) (p : Text × List Setting) : List Piece :=
  .header p.1 (seedPath env p.1) (seedPosFile env p.1) :: (p.2.map Piece.setting ++
    if (clock (asked + 1)).digits = (clock asked).digits then [.footer env.readFromHead] else [])

def throttledWorld (w : World) (p : Text × List Setting) : World where
  positions := movedBy env p.1 w.positions
  conf := w.conf.insert (Key.str (w.fileName env clock p.1)) (throttledPieces env clock w.asked p)
  defaultInput := w.defaultInput
  asked := w.asked + 2

def Fresh (w : World) (project : Text) : Prop :=
  ∀ day, w.pieces (env.getFileName project day) = none

variable {env clock}

theorem movePos_isSome {fs : Files} {sourceFile : Text} (destFile project : Text)
    (h : fs.text sourceFile = none ∨ (Regex.compile .ruby (projectPattern project)).isSome) :
    ∃ fs', movePosFileProjectEntry fs sourceFile destFile project = some fs' ∧
      (fs.text sourceFile = none → fs' = fs) := by
  unfold movePosFileProjectEntry
  cases hsource : fs.text sourceFile with
  | none => exact ⟨fs, rfl, fun _ => rfl⟩
  | some source =>
    obtain ⟨r, hr⟩ := Option.isSome_iff_exists.mp (h.resolve_left (by simp [hsource]))
    rw [hr]
    exact ⟨_, rfl, nofun⟩

theorem foldlM_move {sourceFile : Text} (destFile : Text) (projects : List Text) {w : World}
    (h : w.positions.text sourceFile = none ∨
      ∀ p ∈ projects, (Regex.compile .ruby (projectPattern p)).isSome) :
    ∃ fs, projects.foldlM (fun fs p => movePosFileProjectEntry fs sourceFile destFile p)
        w.positions = some fs ∧ (w.positions.text sourceFile = none → fs = w.positions) ∧
      projects.foldlM (fun w p => w.move sourceFile destFile p) w =
        (.ok { w with positions := fs } : Outcome) := by
  induction projects generalizing w with
  | nil => exact ⟨w.positions, rfl, fun _ => rfl, rfl⟩
  | cons p projects ih =>
    obtain ⟨fs, hfs, hsame⟩ := movePos_isSome destFile p
      (h.imp id fun h => h p List.mem_cons_self)
    have hlater : fs.text sourceFile = none ∨
        ∀ q ∈ projects, (Regex.compile .ruby (projectPattern q)).isSome := by
      refine h.imp (fun hnone => ?_) fun h q hq => h q (List.mem_cons_of_mem p hq)
      rw [hsame hnone]
      exact hnone
    obtain ⟨fs', hfs', hsame', hw⟩ := ih (w := { w with positions := fs }) hlater
    refine ⟨fs', ?_, fun hnone => ?_, ?_⟩
    · rw [List.foldlM_cons, hfs]
      exact hfs'
    · obtain rfl := hsame hnone
      exact hsame' hnone
    · rw [List.foldlM_cons, World.move, hfs]
      exact hw

theorem baseName_append {s : Text} (hs : '/' ∉ s) (path : Text) :
    baseName (path ++ s) = baseName path ++ s := by
  have hall : ∀ c ∈ s.reverse, decide (c ≠ '/') = true := by
    intro c hc
    rw [decide_eq_true_eq]
    rintro rfl
    exact hs (List.mem_reverse.mp hc)
  rw [baseName, List.reverse_append, List.takeWhile_append_of_pos hall, List.reverse_append,
    List.reverse_reverse, baseName]

theorem Day.byteSize_digits (day : Day) : Text.byteSize day.digits = 8 := by
  have hone : ∀ c ∈ day.digits, Char.utf8Size c = 1 := by
    intro c hc
    have hdigit := List.all_eq_true.mp day.digits_valid c hc
    rw [Char.isDigit, Bool.and_eq_true, decide_eq_true_eq, decide_eq_true_eq] at hdigit
    rw [Char.utf8Size, if_pos]
    exact UInt32.le_trans hdigit.2 (by decide)
  rw [Text.byteSize, List.map_congr_left hone, List.map_const', day.digits_length]
  rfl

/-- The file of a project has a short enough name; `-`, the day and `.conf` take
14 octets of it. -/
def Fits (env : Env) (project : Text) : Prop :=
  Text.byteSize (baseName env.throttlePrefix ++ project) + 14 ≤ nameMax

instance (env : Env) (project : Text) : Decidable (Fits env project) := by
  unfold Fits
  infer_instance

theorem fitsName_getFileName {project : Text} (hslash : '/' ∉ project) (day : Day) :
    fitsName (env.getFileName project day) = true ↔ Fits env project := by
  have hdigits : '/' ∉ day.digits := by
    intro h
    exact absurd (List.all_eq_true.mp day.digits_valid _ h) (by decide)
  have hname : '/' ∉ project ++ '-' :: (day.digits ++ ".conf".toList) := by
    simp only [List.mem_append, List.mem_cons, not_or]
    exact ⟨hslash, by decide, hdigits, by decide⟩
  have hend : Text.byteSize ('-' :: (day.digits ++ ".conf".toList)) = 14 := by
    rw [show '-' :: (day.digits ++ ".conf".toList) = ['-'] ++ (day.digits ++ ".conf".toList) from rfl,
      Text.byteSize_append, Text.byteSize_append, day.byteSize_digits]
    decide
  rw [fitsName, decide_eq_true_eq, Env.getFileName, baseName_append hname, ← List.append_assoc,
    Text.byteSize_append, hend, Fits]

/-- The names of projects and words that the run depends on. -/
structure Named (env : Env) (project : Text) : Prop where
  opens : opensFile project = true
  moves : ∀ p ∈ seedMoves env project, isPlain p = true

/-- The file of a project can be opened and its entries looked up; nothing is
looked up while there are no positions. -/
structure Seedable (env : Env) (w : World) (project : Text) : Prop where
  opens : opensFile project = true
  moves : w.positions.text env.contPosFile = none ∨
    ∀ p ∈ seedMoves env project, (Regex.compile .ruby (projectPattern p)).isSome

structure Writable (env : Env) (w : World) (project : Text) : Prop extends
    Seedable env w project where
  fits : Fits env project

theorem Named.seedable {project : Text} (h : Named env project) (w : World) :
    Seedable env w project where
  opens := h.opens
  moves := .inr fun p hp => by
    rw [compile_projectPattern (h.moves p hp)]
    rfl

theorem movedBy_none {fs : Files} (h : fs.text env.contPosFile = none) (project : Text) :
    movedBy env project fs = fs := by
  obtain ⟨fs', hfs', hsame, -⟩ := foldlM_move (seedPosFile env project)
    (seedMoves env project) (w := ⟨fs, Dict.empty, none, 0⟩) (.inl h)
  rw [movedBy, hfs', hsame h, Option.getD_some]

theorem Writable.later {w : World} {name : Text} (h : Writable env w name)
    (p : Text × List Setting) : Writable env (throttledWorld env clock w p) name where
  opens := h.opens
  fits := h.fits
  moves := by
    refine h.moves.imp (fun hnone => ?_) id
    rw [throttledWorld, movedBy_none hnone]
    exact hnone

theorem seedFile_ok {project : Text} {w : World} (h : Seedable env w project) (file : Text) :
    seedFile env file project w =
      .ok (({ w with positions := movedBy env project w.positions } : World).put file
        [.header project (seedPath env project) (seedPosFile env project)]) := by
  obtain ⟨fs, hfs, -, hw⟩ := foldlM_move (seedPosFile env project) (seedMoves env project)
    (w := w.put file [.header project (seedPath env project) (seedPosFile env project)]) h.moves
  have hmoved : movedBy env project w.positions = fs := by
    have : w.positions = (w.put file
        [.header project (seedPath env project) (seedPosFile env project)]).positions := rfl
    rw [movedBy, this, hfs, Option.getD_some]
  rw [seedFile, if_pos h.opens, hmoved]
  refine Eq.trans ?_ hw
  rw [seedMoves]
  split
  · rfl
  · rw [List.foldlM_cons]
    cases World.move _ env.contPosFile (seedPosFile env project) project <;> rfl

theorem pieces_put (w : World) (file other : Text) (pieces : List Piece) :
    (w.put file pieces).pieces other = if other = file then some pieces else w.pieces other := by
  rw [World.pieces, World.put, Dict.get?_insert]
  simp only [Key.str_inj]
  rfl

theorem append_put (w : World) (file : Text) (pieces : List Piece) (p : Piece) :
    (w.put file pieces).append file p = w.put file (pieces ++ [p]) := by
  rw [World.append, pieces_put, if_pos rfl, Option.getD_some]
  simp only [World.put, Dict.insert_insert]

theorem writeToFile_fresh {name : Text} {w : World} (h : Writable env w.tick name)
    (hfresh : w.pieces (w.fileName env clock name) = none) (s : Setting) :
    writeToFile env clock name s w =
      .ok (({ w.tick with positions := movedBy env name w.positions } : World).put
        (w.fileName env clock name)
        [.header name (seedPath env name) (seedPosFile env name), .setting s]) := by
  have hslash : '/' ∉ name := by simpa [opensFile] using h.opens
  have hfits : fitsName (w.fileName env clock name) = true :=
    (fitsName_getFileName hslash _).mpr h.fits
  rw [writeToFile, hfresh]
  simp only [Option.isSome_none, Bool.false_eq_true, ↓reduceIte, hfits, Bool.not_true,
    Bool.and_false, seedFile_ok h.toSeedable, Except.map, append_put]
  rfl

theorem throttleProject_fresh {name : Text} {l : Progress} (h : Writable env l.world name)
    (hfresh : Fresh env l.world name) (s : Setting) :
    throttleProject env clock l (name, [s]) =
      .ok ⟨throttledWorld env clock l.world (name, [s]),
        l.excluded ++ excludedPatterns env name, true⟩ := by
  obtain ⟨w, excluded, throttling⟩ := l
  have hclose (pieces : List Piece) : closeFile env clock name
      (({ w.tick with positions := movedBy env name w.positions } : World).put
        (w.fileName env clock name) pieces) =
      ({ w.tick.tick with positions := movedBy env name w.positions } : World).put
        (w.fileName env clock name) (pieces ++
          if (clock (w.asked + 1)).digits = (clock w.asked).digits then [.footer env.readFromHead]
          else []) := by
    have hname : World.fileName env clock (({ w.tick with
        positions := movedBy env name w.positions } : World).put (w.fileName env clock name) pieces)
          name = env.getFileName name (clock (w.asked + 1)) := rfl
    rw [closeFile, hname]
    by_cases hday : (clock (w.asked + 1)).digits = (clock w.asked).digits
    · have hsame : env.getFileName name (clock (w.asked + 1)) = w.fileName env clock name :=
        getFileName_inj.mpr ⟨rfl, hday⟩
      rw [hsame, pieces_put, if_pos rfl, if_pos hday, if_pos Option.isSome_some]
      exact append_put { w.tick.tick with positions := movedBy env name w.positions } _ _ _
    · have hother : env.getFileName name (clock (w.asked + 1)) ≠ w.fileName env clock name :=
        fun h => hday (getFileName_inj.mp h).2
      have hnone : World.pieces { w.tick with positions := movedBy env name w.positions }
          (env.getFileName name (clock (w.asked + 1))) = none := hfresh _
      rw [pieces_put, if_neg hother, hnone, if_neg hday, List.append_nil]
      rfl
  have hwrite : [s].foldlM (fun w s => writeToFile env clock name s w) w =
      .ok (({ w.tick with positions := movedBy env name w.positions } : World).put
        (w.fileName env clock name)
        [.header name (seedPath env name) (seedPosFile env name), .setting s]) := by
    rw [List.foldlM_cons, writeToFile_fresh ⟨⟨h.opens, h.moves⟩, h.fits⟩ (hfresh _)]
    rfl
  rw [throttleProject, hwrite]
  simp only [Except.map, hclose, List.flatMap_cons, List.flatMap_nil, List.append_nil]
  rfl

theorem pieces_throttledWorld (w : World) (p : Text × List Setting) (file : Text) :
    (throttledWorld env clock w p).pieces file =
      if file = w.fileName env clock p.1 then some (throttledPieces env clock w.asked p)
      else w.pieces file := pieces_put w _ file _

theorem fresh_throttledWorld {w : World} {p : Text × List Setting} {name : Text} (hne : name ≠ p.1)
    (h : Fresh env w name) : Fresh env (throttledWorld env clock w p) name := by
  intro day
  rw [pieces_throttledWorld, if_neg, h day]
  intro hfile
  exact hne (getFileName_inj.mp hfile).1

theorem foldlM_throttleProject {ps : List (Text × List Setting)}
    (hsingle : ∀ p ∈ ps, ∃ s, p.2 = [s]) (hnodup : (ps.map Prod.fst).Nodup)
    {l : Progress} (hwritable : ∀ p ∈ ps, Writable env l.world p.1)
    (hfresh : ∀ p ∈ ps, Fresh env l.world p.1) :
    ps.foldlM (throttleProject env clock) l =
      .ok ⟨ps.foldl (throttledWorld env clock) l.world,
        l.excluded ++ ps.flatMap fun p => excludedPatterns env p.1,
        l.throttling || !ps.isEmpty⟩ := by
  induction ps generalizing l with
  | nil => simp [pure, Except.pure]
  | cons p ps ih =>
    obtain ⟨name, settings⟩ := p
    obtain ⟨s, rfl⟩ := hsingle _ List.mem_cons_self
    rw [List.map_cons, List.nodup_cons] at hnodup
    rw [List.foldlM_cons, throttleProject_fresh (hwritable _ List.mem_cons_self)
      (hfresh _ List.mem_cons_self)]
    have hrest := ih (fun q hq => hsingle q (List.mem_cons_of_mem _ hq)) hnodup.2
      (l := ⟨throttledWorld env clock l.world (name, [s]),
        l.excluded ++ excludedPatterns env name, true⟩)
      (fun q hq => (hwritable q (List.mem_cons_of_mem _ hq)).later _) (fun q hq => by
        apply fresh_throttledWorld _ (hfresh q (List.mem_cons_of_mem _ hq))
        intro hname
        exact hnodup.1 (hname ▸ List.mem_map_of_mem hq))
    refine hrest.trans ?_
    simp

def confOf (env : Env) (clock : Nat → Day) :
    (asked : Nat) → List (Text × List Setting) → List (Key × List Piece)
  | _, [] => []
  | asked, p :: ps =>
    (Key.str (env.getFileName p.1 (clock asked)), throttledPieces env clock asked p) ::
      confOf env clock (asked + 2) ps

theorem foldl_conf {ps : List (Text × List Setting)} (hnodup : (ps.map Prod.fst).Nodup) {w : World}
    (hfresh : ∀ p ∈ ps, Fresh env w p.1) :
    (ps.foldl (throttledWorld env clock) w).conf.entries =
      w.conf.entries ++ confOf env clock w.asked ps := by
  induction ps generalizing w with
  | nil => exact (List.append_nil _).symm
  | cons p ps ih =>
    rw [List.map_cons, List.nodup_cons] at hnodup
    have hlater : ∀ q ∈ ps, Fresh env (throttledWorld env clock w p) q.1 := by
      intro q hq
      apply fresh_throttledWorld _ (hfresh q (List.mem_cons_of_mem _ hq))
      intro hname
      exact hnodup.1 (hname ▸ List.mem_map_of_mem hq)
    have hhere : (throttledWorld env clock w p).conf.entries = w.conf.entries ++
        [(Key.str (w.fileName env clock p.1), throttledPieces env clock w.asked p)] :=
      Dict.insert_entries (hfresh p List.mem_cons_self _)
    rw [List.foldl_cons, ih hnodup.2 hlater, hhere, List.append_assoc]
    rfl

theorem foldl_positions (ps : List (Text × List Setting)) (w : World) :
    (ps.foldl (throttledWorld env clock) w).positions =
      ps.foldl (fun fs p => movedBy env p.1 fs) w.positions := by
  induction ps generalizing w with
  | nil => rfl
  | cons p ps ih => exact ih (throttledWorld env clock w p)

variable (env clock)

def revertedBy (o : Order) (fs : Files) : Files :=
  ((getAllThrottleFiles env o fs).foldlM
    (fun fs file => movePosFileProjectEntry fs file env.contPosFile ['.', '*']) fs).getD fs

def defaultInputOf (d : Document) : DefaultInput where
  path := env.contLogsPath
  posFile := env.contPosFile
  readFromHead := env.readFromHead
  excludePath := (throttled d.parsed).flatMap fun p => excludedPatterns env p.1

def ranWorld (o : Order) (d : Document) (w : World) : World :=
  let after := (throttled d.parsed).foldl (throttledWorld env clock) w
  { after with
    positions := if throttled d.parsed = [] then revertedBy env o w.positions else after.positions
    defaultInput := some (defaultInputOf env d) }

variable {env clock}

def everyRegex : Regex.Pattern :=
  ⟨Regex.flat [.anything, .one '_', .anything, .one '_', .anything, ⟨.dot, none⟩, .one 'l', .one 'o',
    .one 'g'], 0, [], Regex.Dialect.ruby.flags⟩

theorem compile_every : Regex.compile .ruby (projectPattern ['.', '*']) = some everyRegex := rfl

theorem revertThrottle_ok (o : Order) (w : World) :
    revertThrottle env o w = .ok { w with positions := revertedBy env o w.positions } := by
  have hfold (files : List Text) (w : World) :
      ∃ fs, files.foldlM (fun fs file =>
          movePosFileProjectEntry fs file env.contPosFile ['.', '*']) w.positions = some fs ∧
        files.foldlM (fun w file => w.move file env.contPosFile ['.', '*']) w =
          (.ok { w with positions := fs } : Outcome) := by
    induction files generalizing w with
    | nil => exact ⟨w.positions, rfl, rfl⟩
    | cons file files ih =>
      have hmove : ∃ fs, movePosFileProjectEntry w.positions file env.contPosFile ['.', '*'] =
          some fs := by
        unfold movePosFileProjectEntry
        cases w.positions.text file with
        | none => exact ⟨w.positions, rfl⟩
        | some source =>
          rw [compile_every]
          exact ⟨_, rfl⟩
      obtain ⟨fs, hfs⟩ := hmove
      obtain ⟨fs', hfs', hw⟩ := ih { w with positions := fs }
      refine ⟨fs', ?_, ?_⟩
      · rw [List.foldlM_cons, hfs]
        exact hfs'
      · rw [List.foldlM_cons, World.move, hfs]
        exact hw
  obtain ⟨fs, hfs, hw⟩ := hfold (getAllThrottleFiles env o w.positions) w
  rw [revertThrottle, hw, revertedBy, hfs, Option.getD_some]

/-- A run goes through when the names are in order and no project has a file. -/
theorem run_eq {o : Order} {d : Document} {w : World}
    (hwritable : ∀ p ∈ throttled d.parsed, Writable env w p.1)
    (hfresh : ∀ p ∈ throttled d.parsed, Fresh env w p.1) :
    run env clock o d w = .ok (ranWorld env clock o d w) := by
  have hloop := @foldlM_throttleProject env clock _ (fun p hp => throttled_single hp)
    (throttled_nodup d.parsed) ⟨w, [], false⟩ hwritable hfresh
  rw [run, generateThrottleConfigs, foldlM_evaluateProject, hloop]
  cases hps : throttled d.parsed with
  | nil =>
    have hsettled : Progress.settled env o ⟨w, [], false⟩ = revertThrottle env o w := rfl
    rw [revertThrottle_ok] at hsettled
    simp [hsettled, ranWorld, hps, defaultInputOf, createDefaultContainerInput, mainOptions, bind,
      Except.bind]
  | cons p ps =>
    simp [Progress.settled, ranWorld, hps, defaultInputOf, createDefaultContainerInput, mainOptions, bind,
      Except.bind]

end Projects

end AggregatedLogging.Throttle
