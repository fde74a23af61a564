import AggregatedLogging.Throttle.Runs

/-! The text of a throttle source, read back line by line. -/
namespace AggregatedLogging.Throttle

def OneLine (s : Text) : Prop := '\n' ∉ s ∧ '\r' ∉ s

instance (s : Text) : Decidable (OneLine s) := by
  unfold OneLine
  infer_instance

def textOf (pieces : List Piece) : Text := (pieces.map Piece.text).flatten

def throttleLines (project path posFile : Text) (settings : List Setting) (readFromHead : Text) :
    List Text :=
  (Piece.header project path posFile :: (settings.map Piece.setting ++ [Piece.footer readFromHead])).flatMap
    Piece.lines

/-- The parameters that are written for a project take one line each. -/
structure Written (project path posFile : Text) (settings : List Setting) (readFromHead : Text) :
    Prop where
  project : OneLine project
  path : OneLine path
  posFile : OneLine posFile
  settings : ∀ s ∈ settings, s.key = readLinesLimit ∧ OneLine s.value
  readFromHead : OneLine readFromHead

def sourceIndent : Text := "  ".toList

def IsField (l : Text) : Prop :=
  ∃ c body, isSeparator c = false ∧ c ≠ '<' ∧ '\n' ∉ c :: body ∧
    l = sourceIndent ++ c :: (body ++ ['\n'])

def sourceFields (project path posFile : Text) (settings : List Setting) (readFromHead : Text) :
    List Text :=
  (Piece.header project path posFile).lines.tail ++ (settings.map Setting.text ++
    ["  tag kubernetes.*\n".toList, "  read_from_head \"".toList ++ readFromHead ++ "\"\n".toList])

theorem throttleLines_eq (project path posFile : Text) (settings : List Setting)
    (readFromHead : Text) :
    throttleLines project path posFile settings readFromHead =
      sourceOpen :: (sourceFields project path posFile settings readFromHead ++ parseLines ++
        [sourceClose]) := by
  have hsettings : (settings.map Piece.setting).flatMap Piece.lines = settings.map Setting.text := by
    rw [List.flatMap_map, ← List.flatMap_pure_eq_map]
    rfl
  rw [throttleLines, List.flatMap_cons, List.flatMap_append, hsettings, List.flatMap_singleton,
    sourceFields]
  simp [Piece.lines]

theorem textOf_pieces {env : Env} {clock : Nat → Day} {asked : Nat} {p : Text × List Setting}
    (hday : (clock (asked + 1)).digits = (clock asked).digits) :
    textOf (throttledPieces env clock asked p) =
      (throttleLines p.1 (seedPath env p.1) (seedPosFile env p.1) p.2 env.readFromHead).flatten := by
  have htexts (pieces : List Piece) : textOf pieces = (pieces.flatMap Piece.lines).flatten := by
    induction pieces with
    | nil => rfl
    | cons piece pieces ih =>
      rw [List.flatMap_cons, List.flatten_append, ← ih]
      rfl
  rw [htexts, throttledPieces, if_pos hday]
  rfl

theorem IsField.isLine {l : Text} (h : IsField l) : Text.isLine l := by
  obtain ⟨c, body, -, -, hbody, rfl⟩ := h
  refine ⟨sourceIndent ++ c :: body, ?_, by simp⟩
  rw [List.mem_append, not_or]
  exact ⟨by decide, hbody⟩

theorem isField_value {w x r : Text} {c : Char} (hsep : isSeparator c = false) (hc : c ≠ '<')
    (hw : '\n' ∉ c :: w) (hx : '\n' ∉ x) (hr : '\n' ∉ r) :
    IsField (' ' :: ' ' :: c :: (w ++ x ++ (r ++ ['\n']))) := by
  refine ⟨c, w ++ x ++ r, hsep, hc, ?_, by simp [sourceIndent]⟩
  rw [← List.cons_append, ← List.cons_append, List.mem_append, List.mem_append, not_or, not_or]
  exact ⟨⟨hw, hx⟩, hr⟩

theorem Written.isField {project path posFile readFromHead : Text} {settings : List Setting}
    (h : Written project path posFile settings readFromHead) :
    ∀ l ∈ sourceFields project path posFile settings readFromHead, IsField l := by
  have hfixed (w : Text) (hw : '\n' ∉ '@' :: w) : IsField (' ' :: ' ' :: '@' :: (w ++ ['\n'])) :=
    ⟨'@', w, rfl, by decide, hw, rfl⟩
  intro l hl
  rw [sourceFields, List.mem_append, List.mem_append, List.mem_map] at hl
  rcases hl with hl | ⟨s, hs, rfl⟩ | hl
  · simp only [Piece.lines, List.tail_cons, List.mem_cons, List.not_mem_nil, or_false] at hl
    rcases hl with rfl | rfl | rfl | rfl | rfl
    · exact hfixed "type tail".toList (by decide)
    · exact isField_value rfl (by decide) (by decide) h.project.1 (r := "-input".toList) (by decide)
    · exact hfixed "label @INGRESS".toList (by decide)
    · exact isField_value rfl (by decide) (by decide) h.path.1 (r := []) (by decide)
    · exact isField_value rfl (by decide) (by decide) h.posFile.1 (r := []) (by decide)
  · obtain ⟨hkey, hvalue⟩ := h.settings s hs
    rw [Setting.text, settingText, hkey]
    exact isField_value (w := "ead_lines_limit ".toList) rfl (by decide) (by decide) hvalue.1 (r := [])
      (by decide)
  · simp only [List.mem_cons, List.not_mem_nil, or_false] at hl
    rcases hl with rfl | rfl
    · exact isField_value (w := "ag kubernetes.*".toList) (x := []) (r := []) rfl (by decide)
        (by decide) (by decide) (by decide)
    · exact isField_value rfl (by decide) (by decide) h.readFromHead.1 (r := ['"']) (by decide)

theorem isLine_of_ends {ls : List Text}
    (h : ∀ l ∈ ls, l = l.dropLast ++ ['\n'] ∧ '\n' ∉ l.dropLast) : ∀ l ∈ ls, Text.isLine l :=
  fun l hl => ⟨l.dropLast, (h l hl).2, (h l hl).1⟩

theorem parseLines_isLine : ∀ l ∈ parseLines, Text.isLine l := isLine_of_ends (by decide +kernel)

theorem lines_throttle {project path posFile readFromHead : Text} {settings : List Setting}
    (h : Written project path posFile settings readFromHead) :
    Text.lines (throttleLines project path posFile settings readFromHead).flatten =
      throttleLines project path posFile settings readFromHead := by
  apply Text.lines_flatten
  intro l hl
  rw [throttleLines_eq, List.mem_cons, List.mem_append, List.mem_append, List.mem_singleton] at hl
  rcases hl with rfl | (hl | hl) | rfl
  · exact ⟨"<source>".toList, by decide, rfl⟩
  · exact (h.isField l hl).isLine
  · exact parseLines_isLine l hl
  · exact ⟨"</source>".toList, by decide, rfl⟩

end AggregatedLogging.Throttle
