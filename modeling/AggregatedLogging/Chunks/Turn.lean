import AggregatedLogging.Chunks.Confined

/-! The turn of a chunk: when it is aborted, and what it leaves behind. -/
namespace AggregatedLogging.Chunks

open Wire Ruby
open Python (Dict Key)

section Result

variable {faults : Faults} {codec : Codec Object} {print : Letter → Bytes} {opts : Options}
variable {file : Text} {disk : Disk} {s : Bytes}

/-- Nothing raises an error while the messages of a chunk are read and written. -/
structure Spared (faults : Faults) (codec : Codec Object) (print : Letter → Bytes) (opts : Options)
    (file : Text) (s : Bytes) : Prop where
  clean : faults.denied (cleanFile file) = false
  read : faults.unreadable file = false
  letters : Takes faults print (startHandler opts file) [] (rejected opts (codec.readAll s).1)
  readable : (codec.readAll s).2 ≠ .malformed
  moved : faults.stuck file = false

/-- What the script makes of a chunk and of its dead letters. -/
structure Unpacked (codec : Codec Object) (print : Letter → Bytes) (opts : Options) (file : Text)
    (s : Bytes) (disk disk' : Disk) : Prop where
  chunk : disk'.bytes file = some (if rejected opts (codec.readAll s).1 = [] then s
    else (accepted opts (codec.readAll s).1).flatMap codec.write)
  letters : opts.dlqDir ≠ dropWord → disk'.content (dlqPath opts file) =
    if rejected opts (codec.readAll s).1 = [] then disk.content (dlqPath opts file)
    else (rejected opts (codec.readAll s).1).flatMap print

def behindLoop (codec : Codec Object) (print : Letter → Bytes) (opts : Options) (file : Text)
    (s : Bytes) (disk : Disk) : Work :=
  (codec.readAll s).1.foldl (Work.taking codec print opts file)
    ⟨disk.write (cleanFile file) [], startHandler opts file⟩

theorem takes_start (held : Bytes) (ls : List Letter) :
    Takes faults print (startHandler opts file) held ls ↔
      Takes faults print (startHandler opts file) [] ls := by
  unfold startHandler
  cases ls with
  | nil => split <;> rfl
  | cons l ls =>
    split
    · have hany (held held' : Bytes) (ls : List Letter) (n m : Nat) :
          Takes faults print (.drop n) held ls ↔ Takes faults print (.drop m) held' ls := by
        induction ls generalizing n m with
        | nil => rfl
        | cons l ls ih => exact and_congr_right fun _ => ih 1 1
      exact hany _ _ _ _ _
    · rfl

theorem behindLoop_file : (behindLoop codec print opts file s disk).disk.bytes file =
    disk.bytes file := by
  have hself := cleanFile_ne file
  rw [behindLoop, (foldl_frame _ _).2.2 file hself (startHandler_name (dlqPath_ne opts file)),
    Disk.bytes_write, if_neg hself]

theorem behindLoop_clean : (behindLoop codec print opts file s disk).disk.content (cleanFile file) =
    (accepted opts (codec.readAll s).1).flatMap codec.write := by
  have hname := startHandler_name (@dlqPath_ne_clean opts file file).symm
  rw [behindLoop, foldl_clean _ hname, Disk.content_write, if_pos rfl, List.nil_append]

theorem behindLoop_letters (hdir : opts.dlqDir ≠ dropWord) :
    (behindLoop codec print opts file s disk).disk.content (dlqPath opts file) =
      if rejected opts (codec.readAll s).1 = [] then disk.content (dlqPath opts file)
      else (rejected opts (codec.readAll s).1).flatMap print := by
  have hclean := @dlqPath_ne_clean opts file file
  rw [behindLoop, startHandler, if_neg hdir, foldl_letters _ hclean, Disk.content_write,
    if_neg hclean]

theorem behindLoop_dropped : (behindLoop codec print opts file s disk).handler.dropped =
    if rejected opts (codec.readAll s).1 = [] then 0 else 1 := by
  have hstart : (startHandler opts file).dropped = 0 := by
    unfold startHandler
    split <;> rfl
  rw [behindLoop, foldl_dropped, hstart]

theorem eachMessage_cases (hs : disk.bytes file = some s) (hread : faults.unreadable file = false) :
    (Takes faults print (startHandler opts file) [] (rejected opts (codec.readAll s).1) ∧
        eachMessage faults codec print opts file
            ⟨disk.write (cleanFile file) [], startHandler opts file⟩ =
          if (codec.readAll s).2 = .malformed then .error (behindLoop codec print opts file s disk)
          else .ok (behindLoop codec print opts file s disk)) ∨
      ¬ Takes faults print (startHandler opts file) [] (rejected opts (codec.readAll s).1) ∧
        ∃ w, eachMessage faults codec print opts file
          ⟨disk.write (cleanFile file) [], startHandler opts file⟩ = .error w := by
  have hname := startHandler_name (@dlqPath_ne_clean opts file file).symm
  have hstart : (disk.write (cleanFile file) []).bytes file = some s := by
    rw [Disk.bytes_write, if_neg (cleanFile_ne file), hs]
  have hbytes : (if faults.unreadable file then none
      else (disk.write (cleanFile file) []).bytes file) = some s := by
    rw [hread, hstart]
    rfl
  have hloop := @foldlM_cases codec print opts file faults (codec.readAll s).1
    ⟨disk.write (cleanFile file) [], startHandler opts file⟩ hname
  rw [takes_start] at hloop
  unfold eachMessage
  simp only [hbytes]
  rcases hloop with ⟨htakes, hok⟩ | ⟨hnot, w, herror⟩
  · refine .inl ⟨htakes, ?_⟩
    rw [hok]
    rfl
  · refine .inr ⟨hnot, w, ?_⟩
    rw [herror]
    rfl

theorem replaceChunk_moved (hmoved : faults.stuck file = false) (hs : disk.bytes file = some s) :
    ∃ w, replaceChunk faults file (behindLoop codec print opts file s disk) = .ok w ∧
      Unpacked codec print opts file s disk w.disk ∧
      w.handler.dropped = if rejected opts (codec.readAll s).1 = [] then 0 else 1 := by
  have hself := cleanFile_ne file
  have hclean := @dlqPath_ne_clean opts file file
  have hother := dlqPath_ne opts file
  have hdropped := @behindLoop_dropped codec print opts file disk s
  rw [replaceChunk, hmoved, if_neg Bool.false_ne_true]
  by_cases hnone : rejected opts (codec.readAll s).1 = []
  · rw [if_pos hnone] at hdropped
    refine ⟨_, if_neg (by omega), ⟨?_, fun hdir => ?_⟩, ?_⟩
    · rw [if_pos hnone, Disk.bytes_rm, if_neg hself, behindLoop_file, hs]
    · rw [← behindLoop_letters hdir]
      exact Disk.content_congr (by rw [Disk.bytes_rm, if_neg hclean])
    · rw [if_pos hnone]
      exact hdropped
  · rw [if_neg hnone] at hdropped
    refine ⟨_, if_pos (by omega), ⟨?_, fun hdir => ?_⟩, ?_⟩
    · rw [if_neg hnone, Disk.bytes_mv, if_neg hself, if_pos rfl, behindLoop_clean]
    · rw [← behindLoop_letters hdir]
      exact Disk.content_congr (by rw [Disk.bytes_mv, if_neg hclean, if_neg hother.symm])
    · rw [if_neg hnone]
      exact hdropped

theorem unpack_denied (h : faults.denied (cleanFile file) = true) (w : Work) :
    unpack faults codec print opts file w = .error w := by
  rw [unpack, openClean, if_pos h]
  rfl

theorem unpack_opened (h : faults.denied (cleanFile file) = false) (w : Work) :
    unpack faults codec print opts file w =
      eachMessage faults codec print opts file
        { w with disk := w.disk.write (cleanFile file) [] } >>= replaceChunk faults file := by
  rw [unpack, openClean, h, if_neg Bool.false_ne_true]
  rfl

theorem eachMessage_unreadable (h : faults.unreadable file = true) (w : Work) :
    eachMessage faults codec print opts file w = .error w := by
  rw [eachMessage, h]
  rfl

/-- A chunk is unpacked when its letters can be written and nothing raises an error;
otherwise its turn is aborted. -/
theorem turn_cases (hs : disk.bytes file = some s) :
    ((CanWrite faults opts disk ∧ Spared faults codec print opts file s) ∧
        ∃ w, turn faults codec print opts disk file = .ok w ∧
          Unpacked codec print opts file s disk w.disk ∧
          w.handler.dropped = if rejected opts (codec.readAll s).1 = [] then 0 else 1) ∨
      ¬ (CanWrite faults opts disk ∧ Spared faults codec print opts file s) ∧
        Fails faults codec print opts disk file := by
  unfold Fails turn
  rcases @initDlqHandler_cases faults opts file disk with ⟨hinit, hnot⟩ | ⟨dirs, hinit, hcan, -⟩
  · rw [hinit]
    exact .inr ⟨fun h => hnot h.1, _, rfl⟩
  rw [hinit]
  cases hclean : faults.denied (cleanFile file) with
  | true =>
    exact .inr ⟨fun h => Bool.false_ne_true (h.2.clean.symm.trans hclean), _, unpack_denied hclean _⟩
  | false =>
    simp only [unpack_opened hclean]
    cases hread : faults.unreadable file with
    | true =>
      rw [eachMessage_unreadable hread]
      exact .inr ⟨fun h => Bool.false_ne_true (h.2.read.symm.trans hread), _, rfl⟩
    | false =>
      rcases @eachMessage_cases faults codec print opts file { disk with dirs := dirs } s hs hread with
        ⟨htakes, heach⟩ | ⟨hnot, w, heach⟩
      · rw [heach]
        by_cases hend : (codec.readAll s).2 = .malformed
        · rw [if_pos hend]
          exact .inr ⟨fun h => h.2.readable hend, _, rfl⟩
        · rw [if_neg hend]
          cases hmoved : faults.stuck file with
          | true =>
            refine .inr ⟨fun h => Bool.false_ne_true (h.2.moved.symm.trans hmoved), ?_⟩
            exact ⟨behindLoop codec print opts file s { disk with dirs := dirs }, if_pos hmoved⟩
          | false =>
            obtain ⟨w, hw, hunpacked, hdropped⟩ := @replaceChunk_moved faults codec print opts file
              { disk with dirs := dirs } s hmoved hs
            exact .inl ⟨⟨hcan, hclean, hread, htakes, hend, hmoved⟩, w, hw,
              ⟨hunpacked.chunk, hunpacked.letters⟩, hdropped⟩
      · rw [heach]
        exact .inr ⟨fun h => hnot h.2.letters, w, rfl⟩

theorem replaceChunk_letters {w : Work} :
    (settled (replaceChunk faults file w)).disk.content (dlqPath opts file) =
        w.disk.content (dlqPath opts file) ∨ 0 < w.handler.dropped := by
  have hclean := @dlqPath_ne_clean opts file file
  unfold replaceChunk
  split
  · exact .inl rfl
  · split
    · rename_i hdropped
      exact .inr hdropped
    · exact .inl (Disk.content_congr (by rw [settled, Disk.bytes_rm, if_neg hclean]))

theorem turn_letters_kept (hs : disk.bytes file = some s)
    (hnone : rejected opts (codec.readAll s).1 = []) (hdir : opts.dlqDir ≠ dropWord) :
    (sanitizeFile faults codec print opts disk file).content (dlqPath opts file) =
      disk.content (dlqPath opts file) := by
  have hclean := @dlqPath_ne_clean opts file file
  have htakes : Takes faults print (startHandler opts file) [] (rejected opts (codec.readAll s).1) := by
    rw [hnone]
    cases startHandler opts file <;> exact trivial
  unfold sanitizeFile turn
  split
  · rfl
  rcases @initDlqHandler_cases faults opts file disk with ⟨hinit, -⟩ | ⟨dirs, hinit, -, -⟩
  · rw [hinit]
    rfl
  have hkept : (behindLoop codec print opts file s { disk with dirs := dirs }).disk.content
      (dlqPath opts file) = disk.content (dlqPath opts file) := by
    rw [behindLoop_letters hdir, if_pos hnone]
    rfl
  rw [hinit]
  cases hopen : faults.denied (cleanFile file) with
  | true =>
    simp only [unpack_denied hopen]
    rfl
  | false =>
    simp only [unpack_opened hopen]
    cases hread : faults.unreadable file with
    | true =>
      rw [eachMessage_unreadable hread]
      exact Disk.content_congr (by
        change Disk.bytes (Disk.write _ _ _) _ = _
        rw [Disk.bytes_write, if_neg hclean]
        rfl)
    | false =>
      rcases @eachMessage_cases faults codec print opts file { disk with dirs := dirs } s hs hread with
        ⟨-, heach⟩ | ⟨hnot, -⟩
      · rw [heach]
        split
        · exact hkept
        · have hdropped := @behindLoop_dropped codec print opts file { disk with dirs := dirs } s
          rw [if_pos hnone] at hdropped
          rcases @replaceChunk_letters faults opts file
            (behindLoop codec print opts file s { disk with dirs := dirs }) with hsame | hpos
          · exact hsame.trans hkept
          · omega
      · contradiction

end Result

section Others

variable {faults : Faults} {codec : Codec Object} {print : Letter → Bytes} {opts : Options}
variable {disk : Disk} {file : Text}

theorem mine_disjoint (hfile : IsChunk opts disk file) (hseparate : Separate opts disk file) {g : Text}
    (hg : IsChunk opts disk g) (hne : g ≠ file) {p : Text} (hp : Mine opts g p) : ¬ Mine opts file p := by
  rcases hp with rfl | rfl | ⟨hdir, rfl⟩
  · rintro (h | rfl | ⟨hdir, h⟩)
    · exact hne h
    · exact hg.2.2 (List.suffix_append _ _)
    · exact (hseparate.resolve_left hdir p hg).1 h.symm
  · rintro (h | h | ⟨hdir, h⟩)
    · exact hfile.2.2 (h ▸ List.suffix_append _ _)
    · exact hne (List.append_cancel_right h)
    · exact dlqPath_ne_clean file g h.symm
  · rintro (h | h | ⟨-, h⟩)
    · exact (hseparate.resolve_left hdir g hg).2 h
    · exact dlqPath_ne_clean g file h
    · exact hne (dlqPath_inj hg.2.1 hfile.2.1 h)

theorem sanitizeFile_suffix {g : Text} (h : cleanSuffix <:+ g) (disk : Disk) :
    sanitizeFile faults codec print opts disk g = disk := if_pos (List.isSuffixOf_iff_suffix.mpr h)

theorem sanitize_own (hfile : IsChunk opts disk file) (hseparate : Separate opts disk file)
    {gs : List Text} (hgs : ∀ g ∈ gs, ((disk.bytes g).isSome = true ∧ isChild opts.dir g = true) ∧ g ≠ file)
    {p : Text} (hp : Mine opts file p) (d : Disk) :
    (sanitize faults codec print opts gs d).bytes p = d.bytes p := by
  induction gs generalizing d with
  | nil => rfl
  | cons g gs ih =>
    rw [List.forall_mem_cons] at hgs
    refine (ih hgs.2 _).trans ?_
    by_cases hsuffix : cleanSuffix <:+ g
    · rw [sanitizeFile_suffix hsuffix]
    · exact sanitizeFile_frame fun hmine =>
        mine_disjoint hfile hseparate ⟨hgs.1.1.1, hgs.1.1.2, hsuffix⟩ hgs.1.2 hmine hp

theorem sanitize_canWrite (gs : List Text) (d : Disk) :
    CanWrite faults opts (sanitize faults codec print opts gs d) ↔ CanWrite faults opts d := by
  induction gs generalizing d with
  | nil => rfl
  | cons g gs ih => exact (ih _).trans (sanitizeFile_canWrite d)

/-- In a run over the directory, only the turn of the chunk matters to its files. -/
theorem sanitize_turn {files : List Text} (hlisting : IsListing opts disk files)
    (hfile : IsChunk opts disk file) (hseparate : Separate opts disk file) :
    ∃ found, (∀ p, Mine opts file p → found.bytes p = disk.bytes p) ∧
      (CanWrite faults opts found ↔ CanWrite faults opts disk) ∧
      ∀ p, Mine opts file p → (sanitize faults codec print opts files disk).bytes p =
        (sanitizeFile faults codec print opts found file).bytes p := by
  obtain ⟨before, after, rfl⟩ := List.append_of_mem ((hlisting.2 file).mpr ⟨hfile.1, hfile.2.1⟩)
  have hnodup := hlisting.1
  rw [List.nodup_middle, List.nodup_cons] at hnodup
  have hothers : ∀ g ∈ before ++ after,
      ((disk.bytes g).isSome = true ∧ isChild opts.dir g = true) ∧ g ≠ file := by
    intro g hg
    refine ⟨(hlisting.2 g).mp ?_, ne_of_mem_of_not_mem hg hnodup.1⟩
    exact List.mem_append.mpr ((List.mem_append.mp hg).imp_right (List.mem_cons_of_mem file))
  have hbefore := fun g hg => hothers g (List.mem_append_left after hg)
  have hafter := fun g hg => hothers g (List.mem_append_right before hg)
  refine ⟨sanitize faults codec print opts before disk, fun p hp => ?_, sanitize_canWrite before disk,
    fun p hp => ?_⟩
  · exact sanitize_own hfile hseparate hbefore hp disk
  · rw [sanitize, List.foldl_append, List.foldl_cons]
    exact sanitize_own hfile hseparate hafter hp _

end Others

end AggregatedLogging.Chunks
