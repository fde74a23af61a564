import AggregatedLogging.Elasticsearch.IndexPatterns

/-! The payload of a bulk request: which documents are written into it, and what Elasticsearch
reads there. -/
namespace AggregatedLogging.Elasticsearch

section Pattern

open Regex

variable {id name : Text}

def nameAtom : Atom := .cls false [.range 'a' 'z', .range 'A' 'Z', .range '0' '9', .one '-']

def projectEnd : Node := litsThen ".*".toList (.seq (.atom (.at .lineEnd)) .empty)

def projectNode : Node :=
  .seq (.atom (.at .lineStart)) (litsThen "project.".toList
    (.seq (.capture 1 (.seq (.rep 0 none true (.atom nameAtom)) .empty)) projectEnd))

theorem compile_projectPattern :
    compile .python projectPattern = some ⟨projectNode, 1, [], Dialect.python.flags⟩ := rfl

theorem nameAtom_run {fl : Flags} (hfl : fl.ignoreCase = false) (s : State) :
    (Node.atom nameAtom).run fl s = s.eat isNameChar := by
  apply cls_run hfl
  intro c
  simp [ClassItem.holds, isNameChar, Bool.or_assoc]

theorem nameAtom_over : (Node.seq (.rep 0 none true (.atom nameAtom)) .empty).over isNameChar := by
  refine ⟨?_, trivial⟩
  intro c hc
  rw [← hc]
  simp [classHolds, ClassItem.holds, isNameChar, Bool.or_assoc]

/-- The end of the pattern may stand in front of a line break. -/
theorem mem_projectEnd {past rest : Text} {c : Captures} {t : State} :
    t ∈ projectEnd.run Dialect.python.flags ⟨⟨past, rest⟩, c⟩ ↔
      ∃ v, rest = ".*".toList ++ v ∧ (v = [] ∨ v = ['\n']) ∧
        t = ⟨⟨".*".toList.reverse ++ past, v⟩, c⟩ := by
  have hend (v past : Text) :
      t ∈ (Node.seq (.atom (.at .lineEnd)) .empty).run Dialect.python.flags ⟨⟨past, v⟩, c⟩ ↔
        (v = [] ∨ v = ['\n']) ∧ t = ⟨⟨past, v⟩, c⟩ := by
    change t ∈ (if Anchor.lineEnd.holds Dialect.python.flags ⟨past, v⟩ then
      [(⟨⟨past, v⟩, c⟩ : State)] else []).flatMap (fun s => [s]) ↔ _
    rw [List.flatMap_singleton']
    have hholds : Anchor.lineEnd.holds Dialect.python.flags ⟨past, v⟩ = true ↔
        v = [] ∨ v = ['\n'] := by
      simp [Anchor.holds, Dialect.flags]
    by_cases hv : v = [] ∨ v = ['\n']
    · rw [if_pos (hholds.mpr hv), List.mem_singleton]
      exact (and_iff_right hv).symm
    · rw [if_neg (mt hholds.mp hv)]
      exact iff_of_false List.not_mem_nil fun h => hv h.1
  rw [projectEnd, mem_litsThen rfl]
  constructor
  · rintro ⟨v, hv, ht⟩
    exact ⟨v, hv, (hend v _).mp ht⟩
  · rintro ⟨v, hv, ht⟩
    exact ⟨v, hv, (hend v _).mpr ht⟩

theorem isProjectPattern_run : isProjectPattern id = true ↔
    ∃ t, t ∈ (litsThen "project.".toList
      (.seq (.capture 1 (.seq (.rep 0 none true (.atom nameAtom)) .empty)) projectEnd)).run
        Dialect.python.flags ⟨⟨[], id⟩, fun _ => none⟩ := by
  rw [isProjectPattern, compile_projectPattern, Option.bind_some, Pattern.matchStart,
    Pattern.matchAt, Option.isSome_map, List.isSome_head?, ne_eq, List.eq_nil_iff_forall_not_mem,
    not_forall_not]
  have hstart : projectNode.run Dialect.python.flags ⟨.start id, fun _ => none⟩ =
      (litsThen "project.".toList
        (.seq (.capture 1 (.seq (.rep 0 none true (.atom nameAtom)) .empty)) projectEnd)).run
          Dialect.python.flags ⟨⟨[], id⟩, fun _ => none⟩ := by
    change List.flatMap _ [_] = _
    rw [List.flatMap_singleton]
    rfl
  rw [hstart]

theorem isProjectPattern_iff : isProjectPattern id = true ↔
    ∃ name v, name.all isNameChar = true ∧ (v = [] ∨ v = ['\n']) ∧
      id = "project.".toList ++ (name ++ (".*".toList ++ v)) := by
  rw [isProjectPattern_run]
  constructor
  · rintro ⟨t, ht⟩
    obtain ⟨w, hw, ht⟩ := (mem_litsThen rfl).mp ht
    obtain ⟨name, u, past, c, hu, hname, ht⟩ := mem_captured ⟨rfl, rfl⟩ nameAtom_over ht
    obtain ⟨v, hv, hbreak, -⟩ := mem_projectEnd.mp ht
    exact ⟨name, v, hname, hbreak, by rw [hw, hu, hv]⟩
  · rintro ⟨name, v, hname, hbreak, hid⟩
    have htakes : (Node.capture 1 (.seq (.rep 0 none true (.atom nameAtom)) .empty)).Takes
        Dialect.python.flags name := by
      apply takes_capture
      rw [← List.append_nil name]
      exact takes_seq (takes_all (nameAtom_run rfl) hname) takes_empty
    obtain ⟨t, ht⟩ := exists_mem_seq (v := ".*".toList ++ v) htakes
      ("project.".toList.reverse ++ []) (fun _ => none)
      fun c => ⟨_, mem_projectEnd.mpr ⟨v, rfl, hbreak, rfl⟩⟩
    exact ⟨t, (mem_litsThen rfl).mpr ⟨_, hid, ht⟩⟩

theorem namesProject_iff : namesProject id = true ↔
    ∃ name, name.all isNameChar = true ∧ id = "project.".toList ++ (name ++ ".*".toList) := by
  rw [namesProject, Bool.and_eq_true, Bool.and_eq_true, Bool.and_eq_true, List.isPrefixOf_iff_prefix,
    List.isSuffixOf_iff_suffix, decide_eq_true_eq]
  constructor
  · rintro ⟨⟨⟨⟨u, hu⟩, w, hw⟩, hlength⟩, hname⟩
    refine ⟨_, hname, ?_⟩
    subst hu
    have hproject : "project.".toList.length = 8 := rfl
    have hstar : ".*".toList.length = 2 := rfl
    have hlengths := congrArg List.length hw
    rw [List.length_append, List.length_append] at hlengths
    rw [List.length_append] at hlength
    have hend : u.drop (u.length - 2) = ".*".toList := by
      have hdrop := congrArg (List.drop w.length) hw
      rw [List.drop_left, List.drop_append, List.drop_eq_nil_of_le (by omega),
        List.nil_append] at hdrop
      have hcount : w.length - "project.".toList.length = u.length - 2 := by omega
      rw [hdrop, hcount]
    have hsplit := List.take_append_drop (u.length - 2) u
    rw [hend] at hsplit
    have hcount : ("project.".toList ++ u).length - 10 = u.length - 2 := by
      rw [List.length_append]
      omega
    change "project.".toList ++ u = "project.".toList ++ (List.take _ u ++ ".*".toList)
    rw [hcount, hsplit]
  · rintro ⟨name, hname, hid⟩
    subst hid
    refine ⟨⟨⟨List.prefix_append _ _, ?_⟩, ?_⟩, ?_⟩
    · rw [← List.append_assoc]
      exact List.suffix_append _ _
    · simp
    · simpa using hname

theorem isProjectPattern_eq (h : isProjectPattern id = true → '\n' ∉ id) :
    isProjectPattern id = namesProject id := by
  rw [Bool.eq_iff_iff]
  constructor
  · intro hmatch
    obtain ⟨name, v, hname, hv, hid⟩ := isProjectPattern_iff.mp hmatch
    rcases hv with hv | hv
    · rw [hv, List.append_nil] at hid
      exact namesProject_iff.mpr ⟨name, hname, hid⟩
    · exfalso
      apply h hmatch
      rw [hid, hv]
      simp
  · intro hproject
    obtain ⟨name, hname, hid⟩ := namesProject_iff.mp hproject
    exact isProjectPattern_iff.mpr ⟨name, [], hname, .inl rfl, by rw [hid, List.append_nil]⟩

end Pattern

section Line

open CompactJson hiding run

def isPlain (c : Char) : Bool := c ≠ '"' && c ≠ '\\' && 32 ≤ c.toNat

variable {index id t : Text} {frames : List Frame}

theorem run_plain {s : Text} (hs : s.all isPlain = true) (isKey : Bool) (past : Text) :
    CompactJson.run (s ++ t) (.text isKey past, frames) =
      CompactJson.run t (.text isKey (s.reverse ++ past), frames) := by
  induction s generalizing past with
  | nil => rfl
  | cons c s ih =>
    rw [List.all_cons, Bool.and_eq_true] at hs
    have hplain := hs.1
    simp only [isPlain, Bool.and_eq_true, decide_eq_true_eq] at hplain
    rw [List.cons_append, run_cons, step, if_neg hplain.1.1, if_neg hplain.1.2,
      if_neg (by omega), Option.bind_some, ih hs.2, List.reverse_cons, List.append_assoc]
    rfl

theorem isPlain_of {p : Char → Bool} (hquote : p '"' = false) (hslash : p '\\' = false)
    (hcontrol : ∀ n < 32, p (Char.ofNat n) = false) {s : Text} (h : s.all p = true) :
    s.all isPlain = true := by
  rw [List.all_eq_true] at h ⊢
  intro c hc
  have hp := h c hc
  simp only [isPlain, Bool.and_eq_true, decide_eq_true_eq]
  refine ⟨⟨?_, ?_⟩, ?_⟩
  · intro heq
    rw [heq, hquote] at hp
    contradiction
  · intro heq
    rw [heq, hslash] at hp
    contradiction
  · by_contra hlt
    have hcode := hcontrol c.toNat (by omega)
    rw [Char.ofNat_toNat, hp] at hcode
    contradiction

theorem isPlain_of_index {s : Text} (h : s.all isIndexChar = true) : s.all isPlain = true :=
  isPlain_of (by decide) (by decide) (by decide) h

theorem isPlain_of_name {s : Text} (h : s.all isNameChar = true) : s.all isPlain = true :=
  isPlain_of (by decide) (by decide) (by decide) h

def lineFrames : List Frame := [.member [] indexKey, .member [] deleteKey]

def idFrames (index : Text) : List Frame :=
  [.member [(typeKey, .string indexPattern), (indexKey, .string index)] idKey,
    .member [] deleteKey]

theorem run_beforeId (hindex : index.all isPlain = true) :
    CompactJson.run (beforeIndex ++ (index ++ (beforeId ++ t))) (.value, []) =
      CompactJson.run t (.text false [], idFrames index) := by
  have hstart (s : Text) : CompactJson.run (beforeIndex ++ s) (.value, []) =
      CompactJson.run s (.text false [], lineFrames) := rfl
  have hmiddle (past : Text) : CompactJson.run (beforeId ++ t) (.text false past, lineFrames) =
      CompactJson.run t (.text false [], idFrames past.reverse) := rfl
  rw [hstart, run_plain hindex, hmiddle, List.append_nil, List.reverse_reverse]

theorem load_deleteLine (hindex : index.all isPlain = true) (hid : id.all isPlain = true) :
    (load (deleteLine (index, id))).bind deletion = some (index, id) := by
  have hend (past : Text) :
      (CompactJson.run behindId (.text false past, idFrames index)).bind finish =
        some (.object [(deleteKey, .object [(indexKey, .string index),
          (typeKey, .string indexPattern), (idKey, .string past.reverse)])]) := rfl
  rw [load, deleteLine, run_beforeId hindex, run_plain hid, hend, List.append_nil,
    List.reverse_reverse]
  rfl

theorem load_broken (hindex : index.all isPlain = true) (hid : id.all isPlain = true) :
    load (beforeIndex ++ (index ++ (beforeId ++ id))) = none := by
  have hrun := @run_plain [] (idFrames index) id hid false []
  rw [List.append_nil] at hrun
  rw [load, run_beforeId hindex, hrun]
  rfl

end Line

section Payload

open CompactJson hiding run
open Shell hiding Value

def matched (docs : List Doc) : List Doc := docs.filter fun doc => isProjectPattern doc.id

def requestLines (docs : List Doc) : Text :=
  (docs.map fun doc => deleteLine doc.key ++ ['\n']).flatten

def payloadOf (docs : List Doc) : Text :=
  if matched docs = [] then [] else requestLines (matched docs) ++ [' ']

theorem hitLine_hit (doc : Doc) :
    hitLine (hit doc) =
      some (if isProjectPattern doc.id then deleteLine doc.key ++ ['\n'] else []) := by
  have hid : (field (hit doc) idKey).bind text? = some doc.id := rfl
  have hindex : (field (hit doc) indexKey).bind text? = some doc.index := rfl
  rw [hitLine, hid, hindex]
  by_cases hmatch : isProjectPattern doc.id = true
  · rw [if_pos hmatch]
    change (if isProjectPattern doc.id = true then _ else _) = _
    rw [if_pos hmatch]
    rfl
  · rw [if_neg hmatch]
    change (if isProjectPattern doc.id = true then _ else _) = _
    rw [if_neg hmatch]
    rfl

theorem mapM_hitLine (docs : List Doc) : ∃ printed, (docs.map hit).mapM hitLine = some printed ∧
    printed.flatten = requestLines (matched docs) := by
  induction docs with
  | nil => exact ⟨[], rfl, rfl⟩
  | cons doc docs ih =>
    obtain ⟨printed, hprinted, hflat⟩ := ih
    refine ⟨(if isProjectPattern doc.id then deleteLine doc.key ++ ['\n'] else []) :: printed,
      ?_, ?_⟩
    · rw [List.map_cons, List.mapM_cons, hitLine_hit, hprinted]
      rfl
    · rw [List.flatten_cons, hflat, matched, matched, requestLines, requestLines,
        List.filter_cons]
      split
      · rfl
      · rfl

theorem requestLines_eq_nil {docs : List Doc} : requestLines docs = [] ↔ docs = [] := by
  cases docs with
  | nil => exact iff_of_true rfl rfl
  | cons doc docs =>
    refine iff_of_false ?_ (List.cons_ne_nil _ _)
    rw [requestLines, List.map_cons, List.flatten_cons]
    simp

/-- The line break behind the last line is dropped by the shell, the one before it is not. -/
theorem hitLines_hits (docs : List Doc) :
    (hitLines (docs.map hit)).map substitution = some (payloadOf docs) := by
  obtain ⟨printed, hprinted, hflat⟩ := mapM_hitLine docs
  have hlines : hitLines (docs.map hit) = some
      (if printed.flatten = [] then [] else printed.flatten ++ [' ', '\n']) := by
    rw [hitLines, hprinted]
    rfl
  rw [hlines, hflat, payloadOf, Option.map_some]
  apply congrArg
  by_cases hmatched : matched docs = []
  · rw [if_pos (requestLines_eq_nil.mpr hmatched), if_pos hmatched]
    rfl
  · rw [if_neg (mt requestLines_eq_nil.mp hmatched), if_neg hmatched, substitution,
      List.reverse_append]
    change (List.dropWhile _ ('\n' :: ' ' :: _)).reverse = _
    rw [List.dropWhile_cons_of_pos rfl, List.dropWhile_cons_of_neg (by decide),
      List.reverse_cons]
    exact congrArg (fun s => s ++ [' ']) (List.reverse_reverse _)

end Payload

section Bulk

open CompactJson hiding run

theorem bulkActions_cons {l : Text} (hl : '\n' ∉ l) (s : Text) :
    bulkActions (l ++ '\n' :: s) =
      ((load l).bind deletion).bind fun key => (bulkActions s).map fun keys => key :: keys := by
  have hlines : Text.lines (l ++ '\n' :: s) = (l ++ ['\n']) :: Text.lines s := by
    rw [List.append_cons]
    exact Text.lines_cons ⟨l, hl, rfl⟩ s
  rw [bulkActions, bulkLines, hlines, List.filter_cons_of_pos (by simp), List.map_cons,
    List.dropLast_concat, List.mapM_cons]
  simp only [Option.pure_def, Option.bind_eq_bind, Option.map_eq_bind]
  rfl

theorem deleteLine_line {key : Text × Text} (hindex : key.1.all isPlain = true)
    (hid : key.2.all isPlain = true) : '\n' ∉ deleteLine key := by
  have hplain {s : Text} (h : s.all isPlain = true) : '\n' ∉ s := by
    intro hmem
    exact absurd (List.all_eq_true.mp h '\n' hmem) (by decide)
  have hbefore : '\n' ∉ beforeIndex := by decide
  have hmiddle : '\n' ∉ beforeId := by decide
  have hbehind : '\n' ∉ behindId := by decide
  rw [deleteLine]
  simp only [List.mem_append, not_or]
  exact ⟨hbefore, hplain hindex, hmiddle, hplain hid, hbehind⟩

theorem Doc.index_plain (doc : Doc) : doc.index.all isPlain = true := isPlain_of_index doc.plain

theorem projectId_plain {name : Text} (h : name.all isNameChar = true) :
    ("project.".toList ++ (name ++ ".*".toList)).all isPlain = true := by
  rw [List.all_append, List.all_append, isPlain_of_name h]
  rfl

/-- A bulk request is read exactly when no id in it has a line break, and then asks for the
deletion of its documents. -/
theorem bulkActions_requestLines {docs : List Doc}
    (hdocs : ∀ doc ∈ docs, isProjectPattern doc.id = true) {keys : List (Text × Text)} :
    bulkActions (requestLines docs ++ [' ']) = some keys ↔
      keys = docs.map Doc.key ∧ ∀ doc ∈ docs, '\n' ∉ doc.id := by
  induction docs generalizing keys with
  | nil =>
    have hnone : bulkActions (requestLines [] ++ [' ']) = some [] := rfl
    rw [hnone]
    constructor
    · intro h
      exact ⟨(Option.some.inj h).symm, List.forall_mem_nil _⟩
    · intro h
      rw [h.1]
      rfl
  | cons doc docs ih =>
    rw [List.forall_mem_cons] at hdocs
    obtain ⟨name, v, hname, hv, hid⟩ := isProjectPattern_iff.mp hdocs.1
    have hplain := projectId_plain hname
    have hlines : requestLines (doc :: docs) ++ [' '] =
        deleteLine doc.key ++ '\n' :: (requestLines docs ++ [' ']) := by
      simp [requestLines]
    rcases hv with hv | hv
    · rw [hv, List.append_nil] at hid
      rw [← hid] at hplain
      have hbreak : '\n' ∉ doc.id := by
        intro hmem
        exact absurd (List.all_eq_true.mp hplain '\n' hmem) (by decide)
      have hload : (load (deleteLine doc.key)).bind deletion = some doc.key :=
        load_deleteLine doc.index_plain hplain
      rw [hlines, bulkActions_cons (deleteLine_line doc.index_plain hplain), hload,
        Option.bind_some, Option.map_eq_some_iff, List.forall_mem_cons]
      constructor
      · rintro ⟨rest, hrest, hkeys⟩
        obtain ⟨hrest, hothers⟩ := (ih hdocs.2).mp hrest
        exact ⟨by rw [← hkeys, hrest, List.map_cons], hbreak, hothers⟩
      · rintro ⟨hkeys, -, hothers⟩
        exact ⟨docs.map Doc.key, (ih hdocs.2).mpr ⟨rfl, hothers⟩, by rw [hkeys, List.map_cons]⟩
    · have hsplit : deleteLine doc.key ++ '\n' :: (requestLines docs ++ [' ']) =
          (beforeIndex ++ (doc.index ++ (beforeId ++ ("project.".toList ++
            (name ++ ".*".toList))))) ++ '\n' ::
              (behindId ++ '\n' :: (requestLines docs ++ [' '])) := by
        rw [deleteLine, Doc.key, hid, hv]
        simp
      have hbefore : '\n' ∉ beforeIndex ++ (doc.index ++ (beforeId ++ ("project.".toList ++
          (name ++ ".*".toList)))) := by
        have hline := @deleteLine_line (doc.index, "project.".toList ++ (name ++ ".*".toList))
          doc.index_plain hplain
        rw [deleteLine] at hline
        simp only [List.mem_append, not_or] at hline ⊢
        exact ⟨hline.1, hline.2.1, hline.2.2.1, hline.2.2.2.1⟩
      have hnone : bulkActions (requestLines (doc :: docs) ++ [' ']) = none := by
        rw [hlines, hsplit, bulkActions_cons hbefore, load_broken doc.index_plain hplain]
        rfl
      rw [hnone]
      refine iff_of_false (by simp) ?_
      intro h
      apply h.2 doc List.mem_cons_self
      rw [hid, hv]
      simp

end Bulk

end AggregatedLogging.Elasticsearch
