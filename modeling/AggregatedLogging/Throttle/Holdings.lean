import AggregatedLogging.Throttle.Crash
import AggregatedLogging.Throttle.Runs

/-! Position files as a relation: which of them holds a position of which log
file.  A transfer of entries changes the relation for the namespaces that it is
about, and for two files. -/
namespace AggregatedLogging.Throttle

open Regex Fluentd
open Python (Dict Key Order)

def Rendered (fs : Files) : Prop := ∀ file text, fs.text file = some text → ∃ es, text = render es

def Has (fs : Files) (file : Text) (f : LogFile) : Prop :=
  (recorded (fs.content file) f.path).isSome = true

/-- The effect of a transfer of the namespaces in `p`. -/
structure Transfers (fs fs' : Files) (sourceFile destFile : Text) (p : Text → Prop) : Prop where
  rendered : Rendered fs'
  source : ∀ f, Has fs' sourceFile f ↔ Has fs sourceFile f ∧ ¬ p f.ns
  dest : ∀ f, Has fs' destFile f ↔ Has fs destFile f ∨ (Has fs sourceFile f ∧ p f.ns)
  other : ∀ file, file ≠ sourceFile → file ≠ destFile → ∀ f, Has fs' file f ↔ Has fs file f

theorem Rendered.content {fs : Files} (h : Rendered fs) (file : Text) :
    ∃ es, fs.content file = render es := by
  cases htext : fs.text file with
  | none => exact ⟨[], by rw [Files.content, htext]; rfl⟩
  | some text =>
    obtain ⟨es, rfl⟩ := h file text htext
    exact ⟨es, by rw [Files.content, htext, Option.getD_some]⟩

theorem has_iff {fs : Files} {file : Text} {es : List Entry} (h : fs.content file = render es)
    (f : LogFile) : Has fs file f ↔ f.path ∈ es.map Entry.path := by
  rw [Has, h, recorded_isSome]

theorem has_congr {fs fs' : Files} {file : Text} (h : fs'.text file = fs.text file) (f : LogFile) :
    Has fs' file f ↔ Has fs file f := by
  rw [Has, Has, Files.content, Files.content, h]

theorem mem_paths_filter {es : List Entry} {p : Text → Prop} [DecidablePred p] {f : LogFile} :
    f.path ∈ (es.filter fun e => p e.ns).map Entry.path ↔ f.path ∈ es.map Entry.path ∧ p f.ns := by
  simp only [List.mem_map, List.mem_filter, decide_eq_true_eq]
  constructor
  · rintro ⟨e, ⟨he, hp⟩, hpath⟩
    have hns : e.ns = f.ns := LogFile.ns_of_path hpath
    rw [hns] at hp
    exact ⟨⟨e, he, hpath⟩, hp⟩
  · rintro ⟨⟨e, he, hpath⟩, hp⟩
    have hns : e.ns = f.ns := LogFile.ns_of_path hpath
    rw [← hns] at hp
    exact ⟨e, ⟨he, hp⟩, hpath⟩

theorem transfers_writes {fs : Files} (h : Rendered fs) {sourceFile destFile : Text}
    (hne : sourceFile ≠ destFile) {source dest : List Entry}
    (hsource : fs.content sourceFile = render source) (hdest : fs.content destFile = render dest)
    (p : Text → Prop) [DecidablePred p] :
    Transfers fs ((fs.write destFile (render (received (source.filter fun e => p e.ns) dest))).write
      sourceFile (render (source.filter fun e => ¬ p e.ns))) sourceFile destFile p := by
  obtain ⟨hs, hd, hother⟩ := @Files.text_write_write fs sourceFile destFile
    (render (source.filter fun e => ¬ p e.ns))
    (render (received (source.filter fun e => p e.ns) dest)) hne
  have hs' := congrArg (Option.getD · []) hs
  have hd' := congrArg (Option.getD · []) hd
  constructor
  · intro file text htext
    by_cases hfs : file = sourceFile
    · rw [hfs, hs] at htext
      exact ⟨_, (Option.some.inj htext).symm⟩
    by_cases hfd : file = destFile
    · rw [hfd, hd] at htext
      exact ⟨_, (Option.some.inj htext).symm⟩
    · rw [hother file hfs hfd] at htext
      exact h file text htext
  · intro f
    rw [has_iff hs', has_iff hsource]
    exact mem_paths_filter (p := fun ns => ¬ p ns)
  · intro f
    rw [has_iff hd', has_iff hdest, has_iff hsource, mem_received_paths]
    exact or_congr_right (mem_paths_filter (p := p))
  · intro file hfs hfd f
    exact has_congr (hother file hfs hfd) f

theorem transfers_absent {fs : Files} (h : Rendered fs) {sourceFile destFile : Text}
    (hsource : fs.text sourceFile = none) (p : Text → Prop) :
    Transfers fs fs sourceFile destFile p := by
  have hnone (f : LogFile) : ¬ Has fs sourceFile f := by
    rw [Has, Files.content, hsource]
    exact Bool.false_ne_true
  constructor
  · exact h
  · intro f
    exact ⟨fun hf => absurd hf (hnone f), fun hf => absurd hf.1 (hnone f)⟩
  · intro f
    exact ⟨.inl, fun hf => hf.resolve_right fun hf => hnone f hf.1⟩
  · intro file _ _ f
    exact Iff.rfl

def Shrinks (fs fs' : Files) (file : Text) : Prop :=
  ∀ l ∈ Text.lines (fs'.content file), l ∈ Text.lines (fs.content file)

theorem move_transfers {fs : Files} (h : Rendered fs) {sourceFile destFile project : Text}
    (hne : sourceFile ≠ destFile) (hp : isPlain project = true)
    (hown : FindsOwn project (fs.content sourceFile)) :
    ∃ fs', movePosFileProjectEntry fs sourceFile destFile project = some fs' ∧
      Transfers fs fs' sourceFile destFile (fun ns => ns = project) ∧ Shrinks fs fs' sourceFile := by
  cases hsource : fs.text sourceFile with
  | none =>
    refine ⟨fs, ?_, transfers_absent h hsource _, fun l hl => hl⟩
    rw [movePosFileProjectEntry, hsource]
  | some text =>
    obtain ⟨source, rfl⟩ := h sourceFile text hsource
    obtain ⟨dest, hdest⟩ := h.content destFile
    have hcontent : fs.content sourceFile = render source := by
      rw [Files.content, hsource, Option.getD_some]
    rw [hcontent] at hown
    refine ⟨_, move_entries hne hp hown hsource hdest,
      transfers_writes h hne hcontent hdest fun ns => ns = project, ?_⟩
    intro l hl
    rw [Files.content, (Files.text_write_write hne).1, Option.getD_some, lines_render] at hl
    rw [hcontent, lines_render]
    exact List.map_subset _ List.filter_sublist.subset hl

theorem Transfers.trans {fs fs' fs'' : Files} {sourceFile destFile : Text} {p q : Text → Prop}
    (h : Transfers fs fs' sourceFile destFile p)
    (h' : Transfers fs' fs'' sourceFile destFile q) :
    Transfers fs fs'' sourceFile destFile fun ns => p ns ∨ q ns := by
  constructor
  · exact h'.rendered
  · intro f
    rw [h'.source, h.source, not_or, and_assoc]
  · intro f
    rw [h'.dest, h.dest, h.source]
    tauto
  · intro file hfs hfd f
    rw [h'.other file hfs hfd, h.other file hfs hfd]

theorem Transfers.congr {fs fs' : Files} {sourceFile destFile : Text} {p q : Text → Prop}
    (h : Transfers fs fs' sourceFile destFile p) (hpq : ∀ ns, p ns ↔ q ns) :
    Transfers fs fs' sourceFile destFile q := by
  have : p = q := funext fun ns => propext (hpq ns)
  rw [← this]
  exact h

theorem Transfers.refl {fs : Files} (h : Rendered fs) (sourceFile destFile : Text) :
    Transfers fs fs sourceFile destFile fun _ => False := by
  constructor
  · exact h
  · intro f
    simp
  · intro f
    simp
  · intro file _ _ f
    exact Iff.rfl

theorem foldlM_transfers {sourceFile destFile : Text} (hne : sourceFile ≠ destFile)
    {projects : List Text} {fs : Files}
    (hp : ∀ p ∈ projects, isPlain p = true ∧ FindsOwn p (fs.content sourceFile))
    (h : Rendered fs) :
    ∃ fs', projects.foldlM (fun fs p => movePosFileProjectEntry fs sourceFile destFile p) fs =
        some fs' ∧ Transfers fs fs' sourceFile destFile (fun ns => ns ∈ projects) ∧
      Shrinks fs fs' sourceFile := by
  induction projects generalizing fs with
  | nil =>
    refine ⟨fs, rfl, (Transfers.refl h _ _).congr fun ns => ?_, fun l hl => hl⟩
    simp
  | cons p projects ih =>
    obtain ⟨hplain, hown⟩ := hp p List.mem_cons_self
    obtain ⟨fs', hmove, htransfer, hshrinks⟩ := move_transfers h hne hplain hown
    obtain ⟨fs'', hrest, htransfers, hshrinks'⟩ := ih (fun q hq =>
        have hlater := hp q (List.mem_cons_of_mem p hq)
        ⟨hlater.1, hlater.2.of_lines hshrinks⟩) htransfer.rendered
    refine ⟨fs'', ?_, (htransfer.trans htransfers).congr fun ns => List.mem_cons.symm, ?_⟩
    · rw [List.foldlM_cons, hmove]
      exact hrest
    · exact fun l hl => hshrinks l (hshrinks' l hl)

theorem movedBy_transfers {env : Env} {project : Text}
    (hne : env.contPosFile ≠ seedPosFile env project) {fs : Files}
    (hp : ∀ p ∈ seedMoves env project, isPlain p = true ∧ FindsOwn p (fs.content env.contPosFile))
    (h : Rendered fs) :
    Transfers fs (movedBy env project fs) env.contPosFile (seedPosFile env project)
        (fun ns => ns ∈ seedMoves env project) ∧
      Shrinks fs (movedBy env project fs) env.contPosFile := by
  obtain ⟨fs', hfold, htransfers, hshrinks⟩ := foldlM_transfers hne hp h
  rw [movedBy, hfold, Option.getD_some]
  exact ⟨htransfers, hshrinks⟩

end AggregatedLogging.Throttle
