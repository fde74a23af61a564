import AggregatedLogging.Throttle.Transfer

/-! A transfer that is cut off between two writes, and the run that recovers. -/
namespace AggregatedLogging.Throttle

open Regex Fluentd
open Python (Dict Key)

/-- The writes of a transfer in their order.  A file that is opened for writing
is empty until its text is written. -/
def moveWrites (fs : Files) (sourceFile destFile project : Text) : Option (List (Text × Text)) :=
  match fs.text sourceFile with
  | none => some []
  | some source =>
    (compile .ruby (projectPattern project)).map fun r =>
      let found := grep r source
      let update := updated found (fs.content destFile)
      [(destFile, []), (destFile, update), (sourceFile, []),
        (sourceFile, remaining found ((fs.write destFile update).content sourceFile))]

def Files.writeAll (fs : Files) (writes : List (Text × Text)) : Files :=
  writes.foldl (fun fs w => fs.write w.1 w.2) fs

/-- The files when the transfer is cut off behind `n` writes. -/
def crashAfter (n : Nat) (fs : Files) (sourceFile destFile project : Text) : Option Files :=
  (moveWrites fs sourceFile destFile project).map fun writes => fs.writeAll (writes.take n)

/-- The position of a path: its last line counts. -/
def recorded (s path : Text) : Option Text :=
  ((Text.lines s).filter fun l => firstField l = path).getLast?

def KeepsPaths (fs fs' : Files) (sourceFile destFile : Text) : Prop :=
  ∀ path, ((recorded (fs.content sourceFile) path).isSome = true ∨
      (recorded (fs.content destFile) path).isSome = true) →
    (recorded (fs'.content sourceFile) path).isSome = true ∨
      (recorded (fs'.content destFile) path).isSome = true

def SamePositions (fs fs' : Files) (path : Text) : Prop :=
  ∀ p, recorded (fs.content path) p = recorded (fs'.content path) p

/-- Cut off behind `n` writes, the transfer has lost nothing, and another run
finishes it. -/
def CrashSafe (n : Nat) (fs : Files) (sourceFile destFile project : Text) : Prop :=
  ∃ crashed done again, crashAfter n fs sourceFile destFile project = some crashed ∧
    movePosFileProjectEntry fs sourceFile destFile project = some done ∧
    movePosFileProjectEntry crashed sourceFile destFile project = some again ∧
    KeepsPaths fs crashed sourceFile destFile ∧
    SamePositions again done sourceFile ∧ SamePositions again done destFile

theorem Files.write_write (fs : Files) (path s t : Text) :
    (fs.write path s).write path t = fs.write path t := Dict.insert_insert _ s t fs

theorem crashAfter_all (fs : Files) (sourceFile destFile project : Text) {n : Nat} (hn : 4 ≤ n) :
    crashAfter n fs sourceFile destFile project =
      movePosFileProjectEntry fs sourceFile destFile project := by
  have htake (writes : List (Text × Text)) (h : writes.length ≤ 4) : writes.take n = writes :=
    List.take_of_length_le (by omega)
  unfold crashAfter moveWrites movePosFileProjectEntry
  cases fs.text sourceFile with
  | none => simp [htake, Files.writeAll]
  | some source =>
    cases compile .ruby (projectPattern project) with
    | none => rfl
    | some r =>
      simp only [Option.map_some]
      rw [htake]
      · simp only [Files.writeAll, List.foldl_cons, List.foldl_nil, Files.write_write]
      · exact Nat.le_refl 4

theorem recorded_render (es : List Entry) (path : Text) :
    recorded (render es) path = ((es.filter fun e => e.path = path).getLast?).map Entry.line := by
  rw [recorded, lines_render, List.filter_map, List.getLast?_map]
  congr 3
  funext e
  simp [firstField_line]

theorem recorded_isSome {es : List Entry} {path : Text} :
    (recorded (render es) path).isSome = true ↔ path ∈ es.map Entry.path := by
  rw [recorded_render, Option.isSome_map, List.getLast?_isSome, ne_eq, List.filter_eq_nil_iff,
    List.mem_map]
  simp

theorem mem_received_paths {moved dest : List Entry} {path : Text} :
    path ∈ (received moved dest).map Entry.path ↔
      path ∈ dest.map Entry.path ∨ path ∈ moved.map Entry.path := by
  rw [received, List.map_append, List.mem_append, mem_lastEntries_paths]
  constructor
  · rintro (h | h)
    · obtain ⟨e, he, rfl⟩ := List.mem_map.mp h
      exact .inl (List.mem_map_of_mem (List.mem_filter.mp he).1)
    · exact .inr h
  · rintro (h | h)
    · by_cases hm : path ∈ moved.map Entry.path
      · exact .inr hm
      · obtain ⟨e, he, rfl⟩ := List.mem_map.mp h
        exact .inl (List.mem_map_of_mem (List.mem_filter.mpr ⟨he, decide_eq_true hm⟩))
    · exact .inr h

theorem received_received (moved dest : List Entry) :
    received moved (received moved dest) = received moved dest := by
  have hself : without moved (lastEntries moved) = [] := by
    rw [without, List.filter_eq_nil_iff]
    intro e he
    simp only [decide_eq_true_eq, not_not]
    exact mem_lastEntries_paths.mp (List.mem_map_of_mem he)
  have htwice : without moved (without moved dest) = without moved dest := by
    rw [without, without, List.filter_filter]
    simp only [Bool.and_self]
  rw [received, received, without_append, htwice, hself, List.append_nil]

section Crash

variable {fs : Files} {sourceFile destFile project : Text} {source dest : List Entry}

def Holds (fs : Files) (sourceFile destFile : Text) (source dest : List Entry) : Prop :=
  fs.text sourceFile = some (render source) ∧ fs.content destFile = render dest

theorem Holds.content (h : Holds fs sourceFile destFile source dest) :
    fs.content sourceFile = render source := by
  rw [Files.content, h.1, Option.getD_some]

theorem holds_moveTo (hne : sourceFile ≠ destFile) :
    Holds (moveTo fs sourceFile destFile project source dest) sourceFile destFile
      (others project source) (received (ofProject project source) dest) :=
  ⟨(moveTo_texts hne project).1, moveTo_content hne project⟩

theorem crashSafe_of_holds (hne : sourceFile ≠ destFile) (hp : isLabel project = true) {n : Nat}
    (h : Holds fs sourceFile destFile source dest) {crashed : Files} {s d : List Entry}
    (hcrash : crashAfter n fs sourceFile destFile project = some crashed)
    (hleft : Holds crashed sourceFile destFile s d) :
    CrashSafe n fs sourceFile destFile project ↔
      (∀ path, path ∈ source.map Entry.path ∨ path ∈ dest.map Entry.path →
        path ∈ s.map Entry.path ∨ path ∈ d.map Entry.path) ∧
      (∀ path, recorded (render (others project s)) path =
        recorded (render (others project source)) path) ∧
      ∀ path, recorded (render (received (ofProject project s) d)) path =
        recorded (render (received (ofProject project source) dest)) path := by
  have hdone := move_eq hne h.1 h.2 hp
  have hagain := move_eq hne hleft.1 hleft.2 hp
  have hholds := @holds_moveTo fs sourceFile destFile project source dest hne
  have hholds' := @holds_moveTo crashed sourceFile destFile project s d hne
  simp only [CrashSafe, hcrash, hdone, hagain, Option.some.injEq, exists_and_left, exists_eq_left',
    KeepsPaths, SamePositions, h.content, h.2, hleft.content, hleft.2, hholds.content, hholds.2,
    hholds'.content, hholds'.2, recorded_isSome]

variable (hne : sourceFile ≠ destFile) (hp : isLabel project = true)
  (h : Holds fs sourceFile destFile source dest)

include hp h

theorem moveWrites_eq (hne : sourceFile ≠ destFile) :
    moveWrites fs sourceFile destFile project =
      some [(destFile, []), (destFile, render (received (ofProject project source) dest)),
        (sourceFile, []), (sourceFile, render (others project source))] := by
  have hcontent (text : Text) : (fs.write destFile text).content sourceFile = render source := by
    rw [Files.content, Files.text_write, if_neg hne, h.1, Option.getD_some]
  obtain ⟨hplain, hdot⟩ := isPlain_of_isLabel hp
  simp only [moveWrites, h.1, compile_projectPattern hplain, Option.map_some, grep_render hdot, h.2,
    updated_render, hcontent, remaining_render, without_ofProject]

include hne

theorem crashSafe_one :
    CrashSafe 1 fs sourceFile destFile project ↔
      ∀ e ∈ dest, ∃ m ∈ source, m.ns = project ∧ m.path = e.path := by
  have hcrash : crashAfter 1 fs sourceFile destFile project = some (fs.write destFile []) := by
    rw [crashAfter, moveWrites_eq hp h hne]
    rfl
  have hleft : Holds (fs.write destFile []) sourceFile destFile source [] := by
    refine ⟨?_, ?_⟩
    · rw [Files.text_write, if_neg hne, h.1]
    · rw [Files.content, Files.text_write, if_pos rfl]
      rfl
  have hmoved (path : Text) : path ∈ (ofProject project source).map Entry.path ↔
      ∃ m ∈ source, m.ns = project ∧ m.path = path := by
    simp [ofProject, and_assoc]
  rw [crashSafe_of_holds hne hp h hcrash hleft]
  constructor
  · rintro ⟨-, -, hdest⟩ e he
    rw [← hmoved]
    have hin : e.path ∈ (received (ofProject project source) dest).map Entry.path :=
      mem_received_paths.mpr (.inl (List.mem_map_of_mem he))
    rw [← recorded_isSome, ← hdest, recorded_isSome, mem_received_paths] at hin
    exact hin.resolve_left List.not_mem_nil
  · intro hall
    have hnone : without (ofProject project source) dest = [] := by
      rw [without, List.filter_eq_nil_iff]
      intro e he
      simp only [decide_eq_true_eq, not_not]
      exact (hmoved e.path).mpr (hall e he)
    refine ⟨?_, fun _ => rfl, ?_⟩
    · rintro path (hpath | hpath)
      · exact .inl hpath
      · obtain ⟨e, he, rfl⟩ := List.mem_map.mp hpath
        obtain ⟨m, hm, -, hme⟩ := hall e he
        exact .inl (List.mem_map.mpr ⟨m, hm, hme⟩)
    · intro path
      rw [received, received, hnone]
      rfl

theorem crashSafe_three :
    CrashSafe 3 fs sourceFile destFile project ↔ ∀ e ∈ source, e.ns = project := by
  have hcrash : crashAfter 3 fs sourceFile destFile project =
      some ((fs.write destFile (render (received (ofProject project source) dest))).write
        sourceFile []) := by
    rw [crashAfter, moveWrites_eq hp h hne]
    simp only [Option.map_some, List.take_succ_cons, List.take_zero, Files.writeAll, List.foldl_cons,
      List.foldl_nil, Files.write_write]
  have hleft : Holds ((fs.write destFile (render (received (ofProject project source) dest))).write
      sourceFile []) sourceFile destFile [] (received (ofProject project source) dest) := by
    refine ⟨(Files.text_write_write hne).1, ?_⟩
    rw [Files.content, (Files.text_write_write hne).2.1, Option.getD_some]
  have hothers : (∀ e ∈ source, e.ns = project) ↔ others project source = [] := by
    rw [others, List.filter_eq_nil_iff]
    simp
  rw [crashSafe_of_holds hne hp h hcrash hleft]
  constructor
  · rintro ⟨-, hsource, -⟩
    rw [hothers, List.eq_nil_iff_forall_not_mem]
    intro e he
    have hin : e.path ∈ (others project source).map Entry.path := List.mem_map_of_mem he
    rw [← recorded_isSome, ← hsource, recorded_isSome] at hin
    contradiction
  · intro hall
    have hof : ofProject project source = source := by
      apply List.filter_eq_self.mpr
      intro e he
      exact decide_eq_true (hall e he)
    refine ⟨?_, ?_, ?_⟩
    · rintro path hpath
      rw [mem_received_paths, hof]
      exact .inr hpath.symm
    · intro path
      rw [hothers.mp hall]
      rfl
    · intro path
      rw [show ofProject project [] = [] from rfl, received_nil]

theorem crashSafe_else {n : Nat} (h1 : n ≠ 1) (h3 : n ≠ 3) :
    CrashSafe n fs sourceFile destFile project := by
  match n with
  | 0 =>
    have hcrash : crashAfter 0 fs sourceFile destFile project = some fs := by
      rw [crashAfter, moveWrites_eq hp h hne]
      rfl
    rw [crashSafe_of_holds hne hp h hcrash h]
    exact ⟨fun _ hpath => hpath, fun _ => rfl, fun _ => rfl⟩
  | 2 =>
    have hcrash : crashAfter 2 fs sourceFile destFile project =
        some (fs.write destFile (render (received (ofProject project source) dest))) := by
      rw [crashAfter, moveWrites_eq hp h hne]
      simp only [Option.map_some, List.take_succ_cons, List.take_zero, Files.writeAll,
        List.foldl_cons, List.foldl_nil, Files.write_write]
    have hleft : Holds (fs.write destFile (render (received (ofProject project source) dest)))
        sourceFile destFile source (received (ofProject project source) dest) := by
      refine ⟨?_, ?_⟩
      · rw [Files.text_write, if_neg hne, h.1]
      · rw [Files.content, Files.text_write, if_pos rfl, Option.getD_some]
    rw [crashSafe_of_holds hne hp h hcrash hleft]
    refine ⟨?_, fun _ => rfl, ?_⟩
    · rintro path (hpath | hpath)
      · exact .inl hpath
      · exact .inr (mem_received_paths.mpr (.inl hpath))
    · intro path
      rw [received_received]
  | n + 4 =>
    have hcrash := crashAfter_all fs sourceFile destFile project (Nat.le_add_left 4 n)
    rw [move_eq hne h.1 h.2 hp] at hcrash
    rw [crashSafe_of_holds hne hp h hcrash (holds_moveTo hne)]
    refine ⟨?_, ?_, ?_⟩
    · intro path hpath
      rw [mem_received_paths]
      rcases hpath with hpath | hpath
      · obtain ⟨e, he, rfl⟩ := List.mem_map.mp hpath
        by_cases hns : e.ns = project
        · exact .inr (.inr (List.mem_map_of_mem (List.mem_filter.mpr ⟨he, decide_eq_true hns⟩)))
        · exact .inl (List.mem_map_of_mem (List.mem_filter.mpr ⟨he, decide_eq_true hns⟩))
      · exact .inr (.inl hpath)
    · intro path
      rw [others, others, List.filter_filter]
      simp only [Bool.and_self]
    · intro path
      rw [ofProject_others_self, received_nil]

/-- A transfer survives a cut at every point exactly when the destination holds
nothing but what is moved, and the source nothing but the project. -/
theorem crashSafe_iff :
    (∀ n, CrashSafe n fs sourceFile destFile project) ↔
      (∀ e ∈ dest, ∃ m ∈ source, m.ns = project ∧ m.path = e.path) ∧
        ∀ e ∈ source, e.ns = project := by
  rw [← crashSafe_one hne hp h, ← crashSafe_three hne hp h]
  constructor
  · intro hall
    exact ⟨hall 1, hall 3⟩
  · rintro ⟨hone, hthree⟩ n
    by_cases h1 : n = 1
    · rw [h1]
      exact hone
    by_cases h3 : n = 3
    · rw [h3]
      exact hthree
    · exact crashSafe_else hne hp h h1 h3

end Crash

theorem holds_sample : Holds sampleFiles "a.pos".toList "b.pos".toList sampleSource sampleDest :=
  ⟨rfl, rfl⟩

theorem crashSafe_iff_sample :
    (∀ n, CrashSafe n sampleFiles "a.pos".toList "b.pos".toList "web".toList) ↔
      (∀ e ∈ sampleDest, ∃ m ∈ sampleSource, m.ns = "web".toList ∧ m.path = e.path) ∧
        ∀ e ∈ sampleSource, e.ns = "web".toList :=
  crashSafe_iff (by decide) (by decide) holds_sample

/-- The position of the other namespace is lost while the source is rewritten. -/
theorem not_crashSafe_sample :
    ¬ ∀ n, CrashSafe n sampleFiles "a.pos".toList "b.pos".toList "web".toList := by
  intro hall
  have hthree := (crashSafe_three (by decide) (by decide) holds_sample).mp (hall 3)
  have := hthree (sampleEntry "web-2".toList (by decide) "10".toList (by decide))
    (List.mem_cons_of_mem _ List.mem_cons_self)
  exact absurd this (by decide)

end AggregatedLogging.Throttle
