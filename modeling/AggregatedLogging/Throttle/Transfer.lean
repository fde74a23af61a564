import AggregatedLogging.Throttle.Positions

/-! What a transfer of entries does to the two files. -/
namespace AggregatedLogging.Throttle

open Fluentd
open Python (Dict Key)

def IsLast (es : List Entry) (e : Entry) : Prop :=
  ∃ before after, es = before ++ e :: after ∧ e.path ∉ after.map Entry.path

theorem mem_of_isLast {es : List Entry} {e : Entry} (h : IsLast es e) : e ∈ es := by
  obtain ⟨before, after, rfl, -⟩ := h
  exact List.mem_append_right before List.mem_cons_self

theorem mem_lastEntries {es : List Entry} {e : Entry} : e ∈ lastEntries es ↔ IsLast es e := by
  induction es with
  | nil =>
    constructor
    · intro h
      contradiction
    · intro h
      exact mem_of_isLast h
  | cons m es ih =>
    have hcons : IsLast (m :: es) e ↔ (e = m ∧ m.path ∉ es.map Entry.path) ∨ IsLast es e := by
      constructor
      · rintro ⟨before, after, hsplit, hlast⟩
        cases before with
        | nil =>
          obtain ⟨rfl, rfl⟩ := List.cons.inj hsplit
          exact .inl ⟨rfl, hlast⟩
        | cons b before =>
          obtain ⟨rfl, rfl⟩ := List.cons.inj hsplit
          exact .inr ⟨before, after, rfl, hlast⟩
      · rintro (⟨rfl, hlast⟩ | ⟨before, after, rfl, hlast⟩)
        · exact ⟨[], es, rfl, hlast⟩
        · exact ⟨m :: before, after, rfl, hlast⟩
    rw [lastEntries, hcons, ← ih]
    split
    · rename_i hm
      constructor
      · exact .inr
      · rintro (⟨-, hnot⟩ | h)
        · exact absurd hm hnot
        · exact h
    · rename_i hm
      rw [List.mem_cons]
      exact or_congr_left (and_iff_left hm).symm

theorem mem_lastEntries_paths {es : List Entry} {path : Text} :
    path ∈ (lastEntries es).map Entry.path ↔ path ∈ es.map Entry.path := by
  induction es with
  | nil => rfl
  | cons m es ih =>
    rw [lastEntries, List.map_cons, List.mem_cons]
    split
    · rename_i hm
      rw [ih]
      constructor
      · exact .inr
      · rintro (rfl | h)
        · exact hm
        · exact h
    · rw [List.map_cons, List.mem_cons, ih]

theorem lastEntries_nodup (es : List Entry) : ((lastEntries es).map Entry.path).Nodup := by
  induction es with
  | nil => exact List.nodup_nil
  | cons m es ih =>
    rw [lastEntries]
    split
    · exact ih
    · rename_i hm
      rw [List.map_cons, List.nodup_cons, mem_lastEntries_paths]
      exact ⟨hm, ih⟩

theorem ofProject_cons (project : Text) (m : Entry) (es : List Entry) :
    ofProject project (m :: es) =
      if m.ns = project then m :: ofProject project es else ofProject project es := by
  rw [ofProject, List.filter_cons]
  simp only [decide_eq_true_eq]
  rfl

theorem isLast_ofProject {project : Text} {es : List Entry} {e : Entry} :
    IsLast (ofProject project es) e ↔ IsLast es e ∧ e.ns = project := by
  induction es with
  | nil =>
    constructor
    · intro h
      exact absurd (mem_of_isLast h) List.not_mem_nil
    · rintro ⟨h, -⟩
      exact absurd (mem_of_isLast h) List.not_mem_nil
  | cons m es ih =>
    rw [← mem_lastEntries, ← mem_lastEntries] at ih ⊢
    have hpaths : m.path ∈ (ofProject project es).map Entry.path ↔
        m.path ∈ es.map Entry.path ∧ m.ns = project := by
      simp only [List.mem_map, ofProject, List.mem_filter, decide_eq_true_eq]
      constructor
      · rintro ⟨e, ⟨he, rfl⟩, hpath⟩
        exact ⟨⟨e, he, hpath⟩, (LogFile.ns_of_path hpath).symm⟩
      · rintro ⟨⟨e, he, hpath⟩, rfl⟩
        exact ⟨e, ⟨he, LogFile.ns_of_path hpath⟩, hpath⟩
    by_cases hm : m.ns = project
    · rw [ofProject_cons, if_pos hm, lastEntries, lastEntries]
      by_cases hlater : m.path ∈ es.map Entry.path
      · rw [if_pos hlater, if_pos (hpaths.mpr ⟨hlater, hm⟩), ih]
      · rw [if_neg hlater, if_neg fun h => hlater (hpaths.mp h).1, List.mem_cons, List.mem_cons, ih]
        constructor
        · rintro (rfl | ⟨h, hns⟩)
          · exact ⟨.inl rfl, hm⟩
          · exact ⟨.inr h, hns⟩
        · rintro ⟨rfl | h, hns⟩
          · exact .inl rfl
          · exact .inr ⟨h, hns⟩
    · rw [ofProject_cons, if_neg hm, ih, lastEntries]
      by_cases hlater : m.path ∈ es.map Entry.path
      · rw [if_pos hlater]
      · rw [if_neg hlater, List.mem_cons]
        constructor
        · rintro ⟨h, hns⟩
          exact ⟨.inr h, hns⟩
        · rintro ⟨rfl | h, hns⟩
          · exact absurd hns hm
          · exact ⟨h, hns⟩

theorem without_nil (es : List Entry) : without [] es = es := by
  simp [without]

theorem without_comm (a b es : List Entry) : without a (without b es) = without b (without a es) := by
  rw [without, without, List.filter_comm]
  rfl

theorem without_of_ns {a es : List Entry} (h : ∀ m ∈ a, ∀ e ∈ es, m.ns ≠ e.ns) :
    without a es = es := by
  apply List.filter_eq_self.mpr
  intro e he
  rw [decide_eq_true_eq, List.mem_map]
  rintro ⟨m, hm, hpath⟩
  exact h m hm e he (LogFile.ns_of_path hpath)

theorem ns_of_mem_ofProject {project : Text} {es : List Entry} {e : Entry}
    (h : e ∈ ofProject project es) : e.ns = project := of_decide_eq_true (List.mem_filter.mp h).2

theorem ofProject_others_self (project : Text) (es : List Entry) :
    ofProject project (others project es) = [] := by
  rw [ofProject, others, List.filter_filter, List.filter_eq_nil_iff]
  intro e _
  simp

theorem ofProject_others {p q : Text} (h : p ≠ q) (es : List Entry) :
    ofProject q (others p es) = ofProject q es := by
  rw [ofProject, others, List.filter_filter, ofProject]
  apply List.filter_congr
  intro e _
  by_cases he : e.ns = q
  · simp [he, Ne.symm h]
  · simp [he]

theorem others_comm (p q : Text) (es : List Entry) :
    others p (others q es) = others q (others p es) := List.filter_comm _ _ _

theorem received_nil (dest : List Entry) : received [] dest = dest := by
  rw [received, without_nil, lastEntries, List.append_nil]

/-- Two projects have no path in common, so either may go first. -/
theorem received_comm {p q : Text} (h : p ≠ q) (source dest : List Entry) :
    (received (ofProject q source) (received (ofProject p source) dest)).Perm
      (received (ofProject p source) (received (ofProject q source) dest)) := by
  have hapart {p q : Text} (h : p ≠ q) :
      without (ofProject q source) (lastEntries (ofProject p source)) =
        lastEntries (ofProject p source) := by
    apply without_of_ns
    intro m hm e he
    rw [ns_of_mem_ofProject hm, ns_of_mem_ofProject (mem_of_isLast (mem_lastEntries.mp he))]
    exact h.symm
  simp only [received, without_append, hapart h, hapart h.symm, List.append_assoc]
  rw [without_comm]
  exact List.perm_append_comm.append_left _

theorem Files.write_text {fs : Files} {path text : Text} (h : fs.text path = some text) :
    fs.write path text = fs := Dict.insert_of_get? h

theorem Files.text_write_write {fs : Files} {a b s t : Text} (hab : a ≠ b) :
    ((fs.write b t).write a s).text a = some s ∧ ((fs.write b t).write a s).text b = some t ∧
      ∀ f, f ≠ a → f ≠ b → ((fs.write b t).write a s).text f = fs.text f := by
  refine ⟨?_, ?_, ?_⟩
  · rw [Files.text_write, if_pos rfl]
  · rw [Files.text_write, if_neg hab.symm, Files.text_write, if_pos rfl]
  · intro f ha hb
    rw [Files.text_write, if_neg ha, Files.text_write, if_neg hb]

theorem isPlain_of_isLabel {p : Text} (h : isLabel p = true) :
    isPlain p = true ∧ '.' ∉ p := by
  refine ⟨?_, not_mem_label h (by decide)⟩
  rw [isLabel, Bool.and_eq_true, List.all_eq_true] at h
  rw [isPlain, List.all_eq_true]
  intro c hc
  have hlabel := h.2 c hc
  simp only [isLabelChar, Bool.or_eq_true, Bool.and_eq_true, decide_eq_true_eq] at hlabel
  simp only [isPlainChar, Char.isAlphanum, Bool.or_eq_true, decide_eq_true_eq]
  rcases hlabel with (⟨hlow, hhigh⟩ | ⟨hlow, hhigh⟩) | h
  · have hlower : c.isLower = true := Bool.and_eq_true_iff.mpr
      ⟨decide_eq_true hlow, decide_eq_true hhigh⟩
    exact .inl (.inl (.inl (.inl (Bool.or_eq_true_iff.mpr (.inr hlower)))))
  · have hdigit : c.isDigit = true := Bool.and_eq_true_iff.mpr
      ⟨decide_eq_true hlow, decide_eq_true hhigh⟩
    exact .inl (.inl (.inl (.inr hdigit)))
  · exact .inl (.inl (.inr h))

/-- What an exact transfer of the entries of `project` leaves. -/
structure Moved (fs fs' : Files) (sourceFile destFile project : Text) (source dest : List Entry) :
    Prop where
  kept : fs'.text sourceFile = some (render (source.filter fun e => e.ns ≠ project))
  gained : ∃ moved, fs'.text destFile = some (render
      ((dest.filter fun e => ∀ m ∈ source, m.ns = project → m.path ≠ e.path) ++ moved)) ∧
    (moved.map Entry.path).Nodup ∧ ∀ e, e ∈ moved ↔ IsLast source e ∧ e.ns = project
  frame : ∀ f, f ≠ sourceFile → f ≠ destFile → fs'.text f = fs.text f

def moveTo (fs : Files) (sourceFile destFile project : Text) (source dest : List Entry) : Files :=
  (fs.write destFile (render (received (ofProject project source) dest))).write sourceFile
    (render (others project source))

section Transfer

variable {fs : Files} {sourceFile destFile : Text} (hne : sourceFile ≠ destFile)
  {source dest : List Entry} (hsource : fs.text sourceFile = some (render source))
  (hdest : fs.content destFile = render dest)

include hne

theorem moveTo_texts (project : Text) :
    (moveTo fs sourceFile destFile project source dest).text sourceFile =
        some (render (others project source)) ∧
      (moveTo fs sourceFile destFile project source dest).text destFile =
        some (render (received (ofProject project source) dest)) :=
  ⟨(Files.text_write_write hne).1, (Files.text_write_write hne).2.1⟩

theorem moveTo_content (project : Text) :
    (moveTo fs sourceFile destFile project source dest).content destFile =
      render (received (ofProject project source) dest) := by
  rw [Files.content, (moveTo_texts hne project).2, Option.getD_some]

theorem moved_moveTo (project : Text) :
    Moved fs (moveTo fs sourceFile destFile project source dest) sourceFile destFile project
      source dest where
  kept := (moveTo_texts hne project).1
  gained := by
    refine ⟨lastEntries (ofProject project source), ?_, lastEntries_nodup _, ?_⟩
    · rw [(moveTo_texts hne project).2, received, without]
      congr 3
      apply List.filter_congr
      intro e _
      rw [decide_eq_decide, List.mem_map, not_exists]
      constructor
      · intro h m hm hns hpath
        exact h m ⟨List.mem_filter.mpr ⟨hm, decide_eq_true hns⟩, hpath⟩
      · rintro h m ⟨hm, hpath⟩
        exact h m (List.mem_filter.mp hm).1 (ns_of_mem_ofProject hm) hpath
    · intro e
      rw [mem_lastEntries, isLast_ofProject]
  frame := (Files.text_write_write hne).2.2

include hsource hdest

theorem move_eq {project : Text} (hp : isLabel project = true) :
    movePosFileProjectEntry fs sourceFile destFile project =
      some (moveTo fs sourceFile destFile project source dest) :=
  move_entries hne (isPlain_of_isLabel hp).1 (.inl (isPlain_of_isLabel hp).2) hsource hdest

omit hsource hdest in
theorem move_again {project : Text} (hp : isLabel project = true) :
    movePosFileProjectEntry (moveTo fs sourceFile destFile project source dest) sourceFile destFile
      project = some (moveTo fs sourceFile destFile project source dest) := by
  have htexts := @moveTo_texts fs sourceFile destFile hne source dest project
  obtain ⟨hs, hd⟩ := htexts
  rw [move_eq hne hs (moveTo_content hne project) hp, moveTo, ofProject_others_self, received_nil,
    Files.write_text hd, others, others, List.filter_filter]
  simp only [Bool.and_self]
  rw [← others, Files.write_text hs]

end Transfer

def SameLines (fs fs' : Files) (path : Text) : Prop :=
  (Text.lines (fs.content path)).Perm (Text.lines (fs'.content path))

/-- Moving the positions of `p` leaves what it says and does nothing when it is
repeated; the moves of `p` and `q` commute up to the order of the lines. -/
structure TransferExact (fs : Files) (sourceFile destFile p q : Text) (source dest : List Entry) :
    Prop where
  once : ∃ fs', movePosFileProjectEntry fs sourceFile destFile p = some fs' ∧
    Moved fs fs' sourceFile destFile p source dest ∧
    movePosFileProjectEntry fs' sourceFile destFile p = some fs'
  commute : ∃ fp fq fpq fqp, movePosFileProjectEntry fs sourceFile destFile p = some fp ∧
    movePosFileProjectEntry fp sourceFile destFile q = some fpq ∧
    movePosFileProjectEntry fs sourceFile destFile q = some fq ∧
    movePosFileProjectEntry fq sourceFile destFile p = some fqp ∧
    ∀ path, SameLines fpq fqp path

theorem sameLines_of_perm {fs fs' : Files} {path : Text} {es es' : List Entry}
    (h : fs.text path = some (render es)) (h' : fs'.text path = some (render es'))
    (hperm : es.Perm es') : SameLines fs fs' path := by
  rw [SameLines, Files.content, Files.content, h, h', Option.getD_some, Option.getD_some,
    lines_render, lines_render]
  exact hperm.map Entry.line

section Projects

variable {fs : Files} {sourceFile destFile : Text} (hne : sourceFile ≠ destFile)
  {source dest : List Entry} (hsource : fs.text sourceFile = some (render source))
  (hdest : fs.content destFile = render dest)

include hne hsource hdest

theorem move_twice {p q : Text} (hp : isLabel p = true) (hq : isLabel q = true) :
    ∃ first second, movePosFileProjectEntry fs sourceFile destFile p = some first ∧
      movePosFileProjectEntry first sourceFile destFile q = some second ∧
      second.text sourceFile = some (render (others q (others p source))) ∧
      second.text destFile = some (render
        (received (ofProject q (others p source)) (received (ofProject p source) dest))) ∧
      ∀ f, f ≠ sourceFile → f ≠ destFile → second.text f = fs.text f := by
  have hfirst := move_eq hne hsource hdest hp
  have hs := (@moveTo_texts fs sourceFile destFile hne source dest p).1
  have hd := @moveTo_content fs sourceFile destFile hne source dest p
  have hsecond := move_eq hne hs hd hq
  have htexts := @moveTo_texts (moveTo fs sourceFile destFile p source dest) sourceFile destFile hne
    (others p source) (received (ofProject p source) dest) q
  obtain ⟨hs', hd'⟩ := htexts
  refine ⟨_, _, hfirst, hsecond, hs', hd', ?_⟩
  intro f hfs hfd
  rw [moveTo, (Files.text_write_write hne).2.2 f hfs hfd]
  exact (Files.text_write_write hne).2.2 f hfs hfd

/-- Moving the positions of a project is an exact transfer. -/
theorem move_exact {p q : Text} (hp : isLabel p = true) (hq : isLabel q = true) :
    TransferExact fs sourceFile destFile p q source dest := by
  refine ⟨⟨_, move_eq hne hsource hdest hp, moved_moveTo hne p, move_again hne hp⟩, ?_⟩
  obtain ⟨fp, fpq, hfp, hfpq, hs, hd, hframe⟩ := move_twice hne hsource hdest hp hq
  obtain ⟨fq, fqp, hfq, hfqp, hs', hd', hframe'⟩ := move_twice hne hsource hdest hq hp
  refine ⟨fp, fq, fpq, fqp, hfp, hfpq, hfq, hfqp, ?_⟩
  intro path
  by_cases hps : path = sourceFile
  · subst hps
    rw [others_comm] at hs'
    exact sameLines_of_perm hs hs' (.refl _)
  by_cases hpd : path = destFile
  · subst hpd
    apply sameLines_of_perm hd hd'
    by_cases hpq : p = q
    · rw [hpq]
    · rw [ofProject_others hpq, ofProject_others (Ne.symm hpq)]
      exact received_comm hpq source dest
  · rw [SameLines, Files.content, Files.content, hframe path hps hpd, hframe' path hps hpd]

end Projects

/-- A log file of the namespace, with other names in the place of the pod and
the container. -/
def sampleLog (ns : Text) (h : isLabel ns = true) : LogFile where
  pod := "default.web-1".toList
  ns := ns
  container := "kube-proxy".toList
  id := "0123456789ab".toList
  pod_valid := Eq.refl true
  pod_head := by decide
  ns_valid := h
  container_valid := Eq.refl true
  id_valid := Eq.refl true

def sampleEntry (ns : Text) (h : isLabel ns = true) (pos : Text) (hpos : pos.all isHexDigit = true) :
    Entry := ⟨sampleLog ns h, pos, "a1".toList, hpos, Eq.refl true⟩

def sampleSource : List Entry :=
  [sampleEntry "web".toList (Eq.refl true) "0f".toList (Eq.refl true),
    sampleEntry "web-2".toList (Eq.refl true) "10".toList (Eq.refl true),
    sampleEntry "web".toList (Eq.refl true) "1f".toList (Eq.refl true)]

def sampleDest : List Entry := [sampleEntry "web".toList (Eq.refl true) "01".toList (Eq.refl true)]

def sampleFiles : Files :=
  (Files.write Dict.empty "a.pos".toList (render sampleSource)).write "b.pos".toList
    (render sampleDest)

theorem move_exact_sample : TransferExact sampleFiles "a.pos".toList "b.pos".toList "web".toList
    "web-2".toList sampleSource sampleDest :=
  move_exact (by decide) rfl rfl (by decide) (by decide)

end AggregatedLogging.Throttle
