import AggregatedLogging.Chunks.Sanitize

/-! The loop over the messages of a chunk when nothing raises an error, and when
something does. -/
namespace AggregatedLogging.Chunks

open Wire Ruby
open Python (Dict Key)

namespace Disk

theorem bytes_write (disk : Disk) (path other : Text) (s : Bytes) :
    (disk.write path s).bytes other = if other = path then some s else disk.bytes other := by
  rw [bytes, write, Dict.get?_insert]
  simp only [Key.str_inj]
  rfl

theorem bytes_rm (disk : Disk) (path other : Text) :
    (disk.rm path).bytes other = if other = path then none else disk.bytes other := by
  rw [bytes, rm, Dict.get?_erase]
  simp only [Key.str_inj]
  rfl

theorem bytes_mv (disk : Disk) (source dest other : Text) :
    (disk.mv source dest).bytes other =
      if other = source then none else if other = dest then some (disk.content source)
      else disk.bytes other := by
  rw [mv, bytes_rm]
  by_cases hsource : other = source
  · rw [if_pos hsource, if_pos hsource]
  · rw [if_neg hsource, if_neg hsource, bytes_write]

theorem content_write (disk : Disk) (path other : Text) (s : Bytes) :
    (disk.write path s).content other = if other = path then s else disk.content other := by
  rw [content, bytes_write]
  split
  · rfl
  · rfl

theorem content_congr {disk disk' : Disk} {path : Text} (h : disk'.bytes path = disk.bytes path) :
    disk'.content path = disk.content path := congrArg (Option.getD · []) h

theorem bytes_append_of_ne {disk : Disk} {path other : Text} (hne : other ≠ path) (s : Bytes) :
    (disk.append path s).bytes other = disk.bytes other := by
  rw [append, bytes_write, if_neg hne]

theorem content_append (disk : Disk) (path : Text) (s : Bytes) :
    (disk.append path s).content path = disk.content path ++ s := by
  rw [append, content_write, if_pos rfl]

end Disk

def Handler.name? : Handler → Option Text
  | .drop _ => none
  | .file name _ _ => some name

def Work.held (w : Work) : Bytes := (w.handler.name?.map w.disk.content).getD []

/-- The state behind a letter that raises no error. -/
def Work.dropping (print : Letter → Bytes) (l : Letter) (w : Work) : Work :=
  match w.handler with
  | .drop _ => { w with handler := .drop 1 }
  | .file name opened _ =>
    ⟨(if opened then w.disk else w.disk.write name []).append name (print l), .file name true 1⟩

/-- The state behind a message that raises no error. -/
def Work.taking (codec : Codec Object) (print : Letter → Bytes) (opts : Options) (file : Text)
    (w : Work) (obj : Object) : Work :=
  match inspect opts obj with
  | .ok () => { w with disk := w.disk.append (cleanFile file) (codec.write obj) }
  | .error l => w.dropping print l

/-- No letter raises an error.  `held` is what the file of the handler holds. -/
def Takes (faults : Faults) (print : Letter → Bytes) : Handler → Bytes → List Letter → Prop
  | _, _, [] => True
  | .drop _, held, l :: ls => faults.debug l = false ∧ Takes faults print (.drop 1) held ls
  | .file name opened _, held, l :: ls =>
    let held := if opened then held else []
    (opened = false → faults.denied name = false) ∧ faults.puts name held l = none ∧
      Takes faults print (.file name true 1) (held ++ print l) ls

section Loop

variable {codec : Codec Object} {print : Letter → Bytes} {opts : Options} {file : Text}

theorem taking_ok {obj : Object} (h : inspect opts obj = .ok ()) (w : Work) :
    w.taking codec print opts file obj =
      { w with disk := w.disk.append (cleanFile file) (codec.write obj) } := by
  rw [Work.taking, h]

theorem taking_error {obj : Object} {l : Letter} (h : inspect opts obj = .error l) (w : Work) :
    w.taking codec print opts file obj = w.dropping print l := by
  rw [Work.taking, h]

theorem accepted_cons (obj : Object) (objs : List Object) :
    accepted opts (obj :: objs) =
      (if (inspect opts obj).isOk then [obj] else []) ++ accepted opts objs := by
  rw [accepted, List.filter_cons]
  split <;> rfl

theorem rejected_ok {obj : Object} (h : inspect opts obj = .ok ()) (objs : List Object) :
    rejected opts (obj :: objs) = rejected opts objs := by
  rw [rejected, List.filterMap_cons, h]
  rfl

theorem rejected_error {obj : Object} {l : Letter} (h : inspect opts obj = .error l)
    (objs : List Object) : rejected opts (obj :: objs) = l :: rejected opts objs := by
  rw [rejected, List.filterMap_cons, h]
  rfl

theorem accepted_of_rejected_nil {objs : List Object} (h : rejected opts objs = []) :
    accepted opts objs = objs := by
  rw [accepted, List.filter_eq_self]
  intro obj hobj
  cases hinspect : inspect opts obj with
  | ok u => rfl
  | error l =>
    have hmem : l ∈ rejected opts objs := List.mem_filterMap.mpr ⟨obj, hobj, by rw [hinspect]⟩
    rw [h] at hmem
    contradiction

theorem rejected_nil_of_accepted {objs : List Object} (h : accepted opts objs = objs) :
    rejected opts objs = [] := by
  rw [accepted, List.filter_eq_self] at h
  rw [rejected, List.filterMap_eq_nil_iff]
  intro obj hobj
  cases hinspect : inspect opts obj with
  | ok u => rfl
  | error l =>
    have := h obj hobj
    rw [hinspect] at this
    contradiction

variable (print) in
theorem dropping_frame (l : Letter) (w : Work) :
    (w.dropping print l).handler.name? = w.handler.name? ∧
      (w.dropping print l).disk.dirs = w.disk.dirs ∧
      ∀ p, w.handler.name? ≠ some p → (w.dropping print l).disk.bytes p = w.disk.bytes p := by
  obtain ⟨disk, handler⟩ := w
  cases handler with
  | drop n => exact ⟨rfl, rfl, fun _ _ => rfl⟩
  | file name opened n =>
    cases opened with
    | true =>
      refine ⟨rfl, rfl, fun p hp => ?_⟩
      have hne : p ≠ name := fun h => hp (congrArg some h.symm)
      exact Disk.bytes_append_of_ne hne (print l)
    | false =>
      refine ⟨rfl, rfl, fun p hp => ?_⟩
      have hne : p ≠ name := fun h => hp (congrArg some h.symm)
      exact (Disk.bytes_append_of_ne hne (print l)).trans
        ((Disk.bytes_write disk name p []).trans (if_neg hne))

theorem foldl_frame (objs : List Object) (w : Work) :
    (objs.foldl (Work.taking codec print opts file) w).handler.name? = w.handler.name? ∧
      (objs.foldl (Work.taking codec print opts file) w).disk.dirs = w.disk.dirs ∧
      ∀ p, p ≠ cleanFile file → w.handler.name? ≠ some p →
        (objs.foldl (Work.taking codec print opts file) w).disk.bytes p = w.disk.bytes p := by
  induction objs generalizing w with
  | nil => exact ⟨rfl, rfl, fun _ _ _ => rfl⟩
  | cons obj objs ih =>
    rw [List.foldl_cons]
    cases hinspect : inspect opts obj with
    | ok u =>
      rw [taking_ok hinspect]
      obtain ⟨hname, hdirs, hbytes⟩ :=
        ih { w with disk := w.disk.append (cleanFile file) (codec.write obj) }
      refine ⟨hname, hdirs, fun p hp hnot => ?_⟩
      rw [hbytes p hp hnot, Disk.bytes_append_of_ne hp]
    | error l =>
      rw [taking_error hinspect]
      obtain ⟨hname, hdirs, hbytes⟩ := ih (w.dropping print l)
      obtain ⟨hname', hdirs', hbytes'⟩ := dropping_frame print l w
      refine ⟨hname.trans hname', hdirs.trans hdirs', fun p hp hnot => ?_⟩
      rw [hbytes p hp (hname' ▸ hnot), hbytes' p hnot]

theorem foldl_clean (objs : List Object) {w : Work} (hname : w.handler.name? ≠ some (cleanFile file)) :
    (objs.foldl (Work.taking codec print opts file) w).disk.content (cleanFile file) =
      w.disk.content (cleanFile file) ++ (accepted opts objs).flatMap codec.write := by
  induction objs generalizing w with
  | nil => exact (List.append_nil _).symm
  | cons obj objs ih =>
    rw [List.foldl_cons, accepted_cons, List.flatMap_append, ← List.append_assoc]
    cases hinspect : inspect opts obj with
    | ok u =>
      rw [taking_ok hinspect,
        ih (w := { w with disk := w.disk.append (cleanFile file) (codec.write obj) }) hname,
        Disk.content_append]
      simp [Except.isOk, Except.toBool]
    | error l =>
      obtain ⟨hname', -, hbytes⟩ := dropping_frame print l w
      rw [taking_error hinspect, ih (w := w.dropping print l) (hname' ▸ hname), Disk.content_congr (hbytes _ hname)]
      simp [Except.isOk, Except.toBool]

theorem foldl_dropped (objs : List Object) (w : Work) :
    (objs.foldl (Work.taking codec print opts file) w).handler.dropped =
      if rejected opts objs = [] then w.handler.dropped else 1 := by
  induction objs generalizing w with
  | nil => rfl
  | cons obj objs ih =>
    rw [List.foldl_cons, ih]
    cases hinspect : inspect opts obj with
    | ok u => rw [taking_ok hinspect, rejected_ok hinspect]
    | error l =>
      have hone : (w.dropping print l).handler.dropped = 1 := by
        rw [Work.dropping]
        split <;> rfl
      rw [taking_error hinspect, rejected_error hinspect, hone, if_neg (List.cons_ne_nil _ _)]
      split <;> rfl

theorem foldl_opened (objs : List Object) {name : Text} (hname : name ≠ cleanFile file)
    {disk : Disk} {n : Nat} :
    (objs.foldl (Work.taking codec print opts file) ⟨disk, .file name true n⟩).disk.content name =
      disk.content name ++ (rejected opts objs).flatMap print := by
  induction objs generalizing disk n with
  | nil => exact (List.append_nil _).symm
  | cons obj objs ih =>
    rw [List.foldl_cons]
    cases hinspect : inspect opts obj with
    | ok u =>
      rw [taking_ok hinspect, rejected_ok hinspect, ih,
        Disk.content_congr (Disk.bytes_append_of_ne hname _)]
    | error l =>
      rw [taking_error hinspect, rejected_error hinspect, List.flatMap_cons, ← List.append_assoc]
      change (objs.foldl (Work.taking codec print opts file)
        ⟨disk.append name (print l), .file name true 1⟩).disk.content name = _
      rw [ih, Disk.content_append]

theorem foldl_letters (objs : List Object) {name : Text} (hname : name ≠ cleanFile file)
    {disk : Disk} :
    (objs.foldl (Work.taking codec print opts file) ⟨disk, .file name false 0⟩).disk.content name =
      if rejected opts objs = [] then disk.content name
      else (rejected opts objs).flatMap print := by
  induction objs generalizing disk with
  | nil => rfl
  | cons obj objs ih =>
    rw [List.foldl_cons]
    cases hinspect : inspect opts obj with
    | ok u =>
      rw [taking_ok hinspect, rejected_ok hinspect, ih,
        Disk.content_congr (Disk.bytes_append_of_ne hname _)]
    | error l =>
      rw [taking_error hinspect, rejected_error hinspect, if_neg (List.cons_ne_nil _ _),
        List.flatMap_cons]
      change (objs.foldl (Work.taking codec print opts file)
        ⟨(disk.write name []).append name (print l), .file name true 1⟩).disk.content name = _
      rw [foldl_opened objs hname, Disk.content_append, Disk.content_write, if_pos rfl, List.nil_append]

theorem held_taking {w : Work} (hname : w.handler.name? ≠ some (cleanFile file)) (s : Bytes) :
    Work.held { w with disk := w.disk.append (cleanFile file) s } = w.held := by
  unfold Work.held
  cases h : w.handler.name? with
  | none => rfl
  | some name =>
    have hne : name ≠ cleanFile file := fun hsame => hname (h.trans (congrArg some hsame))
    exact Disk.content_congr (Disk.bytes_append_of_ne hne s)

variable {faults : Faults}

theorem handleMsg_cases (l : Letter) (ls : List Letter) (w : Work) :
    (handleMsg faults print l w = .ok (w.dropping print l) ∧
        (Takes faults print w.handler w.held (l :: ls) ↔
          Takes faults print (w.dropping print l).handler (w.dropping print l).held ls)) ∨
      (∃ w', handleMsg faults print l w = .error w') ∧
        ¬ Takes faults print w.handler w.held (l :: ls) := by
  obtain ⟨disk, handler⟩ := w
  cases handler with
  | drop n =>
    cases hdebug : faults.debug l with
    | true => exact .inr ⟨⟨_, by rw [handleMsg, if_pos hdebug]⟩, by simp [Takes, hdebug]⟩
    | false =>
      refine .inl ⟨by simp [handleMsg, hdebug, Work.dropping], ?_⟩
      simp [Takes, hdebug, Work.dropping, Work.held, Handler.name?]
  | file name opened n =>
    cases hopen : !opened && faults.denied name with
    | true =>
      rw [Bool.and_eq_true, Bool.not_eq_true'] at hopen
      obtain ⟨rfl, hdenied⟩ := hopen
      exact .inr ⟨⟨⟨disk, .file name false n⟩, by simp [handleMsg, hdenied]⟩, by simp [Takes, hdenied]⟩
    | false =>
      have hcan : opened = false → faults.denied name = false := by
        rintro rfl
        exact hopen
      have hheld : (if opened then disk else disk.write name []).content name =
          if opened then disk.content name else [] := by
        cases opened with
        | true => rfl
        | false => exact (Disk.content_write disk name name []).trans (if_pos rfl)
      cases hputs : faults.puts name (if opened then disk.content name else []) l with
      | some part =>
        refine .inr ⟨⟨⟨(if opened then disk else disk.write name []).append name part,
          .file name true 1⟩, ?_⟩, ?_⟩
        · simp only [handleMsg, hopen, hheld, hputs]
          rfl
        · simp [Takes, Work.held, Handler.name?, hputs]
      | none =>
        refine .inl ⟨?_, ?_⟩
        · simp only [handleMsg, hopen, hheld, hputs]
          rfl
        · simp only [Takes, Work.held, Work.dropping, Handler.name?, Option.map_some,
            Option.getD_some, hputs, Disk.content_append, hheld]
          exact ⟨fun h => h.2.2, fun h => ⟨hcan, trivial, h⟩⟩

/-- The loop goes through the messages when the handler takes the letters, and is
stopped otherwise. -/
theorem foldlM_cases (objs : List Object) {w : Work}
    (hname : w.handler.name? ≠ some (cleanFile file)) :
    (Takes faults print w.handler w.held (rejected opts objs) ∧
        objs.foldlM (unpackOne faults codec print opts file) w =
          .ok (objs.foldl (Work.taking codec print opts file) w)) ∨
      ¬ Takes faults print w.handler w.held (rejected opts objs) ∧
        ∃ w', objs.foldlM (unpackOne faults codec print opts file) w = .error w' := by
  induction objs generalizing w with
  | nil =>
    have hnil : Takes faults print w.handler w.held [] := by
      cases w.handler <;> exact trivial
    exact .inl ⟨hnil, rfl⟩
  | cons obj objs ih =>
    rw [List.foldlM_cons, List.foldl_cons]
    cases hinspect : inspect opts obj with
    | ok u =>
      have hone : unpackOne faults codec print opts file w obj =
          .ok (w.taking codec print opts file obj) := by
        rw [unpackOne, hinspect, taking_ok hinspect]
      rw [rejected_ok hinspect, hone, taking_ok hinspect]
      have hrest := ih (w := { w with disk := w.disk.append (cleanFile file) (codec.write obj) }) hname
      rw [held_taking hname] at hrest
      exact hrest
    | error l =>
      have hone : unpackOne faults codec print opts file w obj = handleMsg faults print l w := by
        rw [unpackOne, hinspect]
      rw [rejected_error hinspect, hone, taking_error hinspect]
      obtain ⟨hname', -, -⟩ := dropping_frame print l w
      rcases @handleMsg_cases print faults l (rejected opts objs) w with
        ⟨hmsg, htakes⟩ | ⟨⟨w', hmsg⟩, hnot⟩
      · rw [hmsg, htakes]
        exact ih (hname' ▸ hname)
      · rw [hmsg]
        exact .inr ⟨hnot, w', rfl⟩

end Loop


section Names

variable {opts : Options}

theorem isChild_iff {dir path : Text} (h : isChild dir path = true) :
    ∃ name, '/' ∉ name ∧ path = dir ++ '/' :: name := by
  simp only [isChild, Bool.and_eq_true, List.isPrefixOf_iff_prefix] at h
  obtain ⟨⟨⟨⟨name, rfl⟩, -⟩, hslash⟩, -⟩ := h
  refine ⟨name, ?_, by simp⟩
  have hdrop : (dir ++ ['/'] ++ name).drop (dir.length + 1) = name := by
    rw [List.drop_left' (by simp)]
  rw [hdrop] at hslash
  simpa using hslash

theorem baseName_child (dir : Text) {name : Text} (hname : '/' ∉ name) :
    baseName (dir ++ '/' :: name) = name := by
  have hall : ∀ c ∈ name.reverse, decide (c ≠ '/') = true := by
    intro c hc
    rw [decide_eq_true_eq]
    rintro rfl
    exact hname (List.mem_reverse.mp hc)
  have hreverse : (dir ++ '/' :: name).reverse = name.reverse ++ '/' :: dir.reverse := by simp
  rw [baseName, hreverse, List.takeWhile_append_of_pos hall, List.takeWhile_cons_of_neg (by simp),
    List.append_nil, List.reverse_reverse]

theorem join_inj {dir a b : Text} : join dir a = join dir b ↔ a = b := by
  unfold join
  split
  · exact List.append_cancel_left_eq dir a b ▸ Iff.rfl
  · simp

theorem dlqPath_inj {f g : Text} (hf : isChild opts.dir f = true) (hg : isChild opts.dir g = true)
    (h : dlqPath opts f = dlqPath opts g) : f = g := by
  obtain ⟨n, hn, rfl⟩ := isChild_iff hf
  obtain ⟨m, hm, rfl⟩ := isChild_iff hg
  rw [dlqPath, dlqPath, join_inj, baseName_child opts.dir hn, baseName_child opts.dir hm] at h
  rw [List.append_cancel_right h]

theorem dlqPath_ne_clean (f g : Text) : dlqPath opts f ≠ cleanFile g := by
  intro h
  have hlast := congrArg List.getLast? h
  have hdlq : (dlqPath opts f).getLast? = some 'q' := by
    have hsuffix : dlqSuffix.getLast? = some 'q' := by decide
    have hback (name : Text) : (name ++ dlqSuffix).getLast? = some 'q' := by
      rw [List.getLast?_append, hsuffix]
      rfl
    unfold dlqPath join
    split
    · rw [← List.append_assoc, hback]
    · rw [← List.cons_append, ← List.append_assoc, hback]
  have hsuffix : cleanSuffix.getLast? = some 'n' := by decide
  have hclean : (cleanFile g).getLast? = some 'n' := by
    rw [cleanFile, List.getLast?_append, hsuffix]
    rfl
  rw [hdlq, hclean] at hlast
  contradiction

theorem cleanFile_ne (file : Text) : file ≠ cleanFile file := by
  intro h
  have hsuffix : 0 < cleanSuffix.length := by decide
  have hlength := congrArg List.length h
  rw [cleanFile, List.length_append] at hlength
  omega

theorem slash_notMem_baseName (path : Text) : '/' ∉ baseName path := by
  intro h
  have hall := List.all_takeWhile (p := fun c => decide (c ≠ '/')) (l := path.reverse)
  rw [List.all_eq_true] at hall
  have := hall '/' (List.mem_reverse.mp h)
  contradiction

theorem baseName_join (dir : Text) {name : Text} (hname : '/' ∉ name) : baseName (join dir name) = name := by
  unfold join
  split
  · rename_i hlast
    obtain ⟨above, rfl⟩ := List.getLast?_eq_some_iff.mp hlast
    rw [List.append_assoc]
    exact baseName_child above hname
  · exact baseName_child dir hname

theorem dlqPath_ne (opts : Options) (file : Text) : file ≠ dlqPath opts file := by
  intro h
  have hslash : '/' ∉ baseName file ++ dlqSuffix := by
    rw [List.mem_append, not_or]
    exact ⟨slash_notMem_baseName file, by decide⟩
  have hname := congrArg baseName h
  rw [dlqPath, baseName_join opts.dlqDir hslash] at hname
  have hsuffix : 0 < dlqSuffix.length := by decide
  have hlength := congrArg List.length hname
  rw [List.length_append] at hlength
  omega

theorem startHandler_name {file path : Text} (h : path ≠ dlqPath opts file) :
    (startHandler opts file).name? ≠ some path := by
  unfold startHandler
  split
  · exact nofun
  · exact fun hname => h (Option.some.inj hname).symm

end Names

end AggregatedLogging.Chunks
