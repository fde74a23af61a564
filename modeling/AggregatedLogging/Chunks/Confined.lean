import AggregatedLogging.Chunks.Sanitized
import AggregatedLogging.Python.Except

/-! The turn of a chunk reads and writes three files only. -/
namespace AggregatedLogging.Chunks

open Wire Ruby
open Python (Dict Key bind_error)

/-- The disks hold the same under the paths of `S`. -/
def Agree (S : Text → Prop) (d d' : Disk) : Prop := ∀ p, S p → d.bytes p = d'.bytes p

def Owned (S : Text → Prop) (w : Work) : Prop := ∀ name, w.handler.name? = some name → S name

/-- Both go on, or both are aborted, with the same under `S`. -/
def Same (S : Text → Prop) : Except Work Work → Except Work Work → Prop
  | .ok w, .ok w' | .error w, .error w' => w.handler = w'.handler ∧ Agree S w.disk w'.disk
  | _, _ => False

/-- A computation that reads and writes files under `S` only. -/
structure Confined (S : Text → Prop) (F : Work → Except Work Work) : Prop where
  frame : ∀ {w}, Owned S w → ∀ p, ¬ S p → (settled (F w)).disk.bytes p = w.disk.bytes p
  dirs : ∀ w, (settled (F w)).disk.dirs = w.disk.dirs
  owned : ∀ {w}, Owned S w → Owned S (settled (F w))
  same : ∀ {w w'}, Owned S w → w.handler = w'.handler → Agree S w.disk w'.disk → Same S (F w) (F w')

section Confined

variable {S : Text → Prop}

theorem Agree.content {d d' : Disk} (h : Agree S d d') {p : Text} (hp : S p) :
    d.content p = d'.content p := congrArg (Option.getD · []) (h p hp)

theorem Agree.write {d d' : Disk} (h : Agree S d d') (path : Text) (s : Bytes) :
    Agree S (d.write path s) (d'.write path s) := by
  intro p hp
  rw [Disk.bytes_write, Disk.bytes_write, h p hp]

theorem Agree.append {d d' : Disk} (h : Agree S d d') {path : Text} (hpath : S path) (s : Bytes) :
    Agree S (d.append path s) (d'.append path s) := by
  rw [Disk.append, Disk.append, h.content hpath]
  exact h.write path _

theorem Agree.rm {d d' : Disk} (h : Agree S d d') (path : Text) :
    Agree S (d.rm path) (d'.rm path) := by
  intro p hp
  rw [Disk.bytes_rm, Disk.bytes_rm, h p hp]

theorem Agree.mv {d d' : Disk} (h : Agree S d d') {source : Text} (hsource : S source) (dest : Text) :
    Agree S (d.mv source dest) (d'.mv source dest) := by
  rw [Disk.mv, Disk.mv, h.content hsource]
  exact (h.write dest _).rm source

theorem Disk.bytes_write_of_not {path p : Text} (hpath : S path) (hp : ¬ S p) (disk : Disk) (s : Bytes) :
    (disk.write path s).bytes p = disk.bytes p := by
  rw [Disk.bytes_write, if_neg (fun h : p = path => hp (h ▸ hpath))]

theorem Disk.bytes_rm_of_not {path p : Text} (hpath : S path) (hp : ¬ S p) (disk : Disk) :
    (disk.rm path).bytes p = disk.bytes p := by
  rw [Disk.bytes_rm, if_neg (fun h : p = path => hp (h ▸ hpath))]

theorem Confined.bind {F G : Work → Except Work Work} (hF : Confined S F) (hG : Confined S G) :
    Confined S fun w => F w >>= G := by
  constructor
  · intro w hw p hp
    have hframe := hF.frame hw p hp
    have howned := hF.owned hw
    cases h : F w with
    | error v => rw [h] at hframe; exact hframe
    | ok v =>
      rw [h] at hframe howned
      exact (hG.frame howned p hp).trans hframe
  · intro w
    have hdirs := hF.dirs w
    cases h : F w with
    | error v => rw [h] at hdirs; exact hdirs
    | ok v =>
      rw [h] at hdirs
      exact (hG.dirs v).trans hdirs
  · intro w hw
    have howned := hF.owned hw
    cases h : F w with
    | error v => rw [h] at howned; exact howned
    | ok v =>
      rw [h] at howned
      exact hG.owned howned
  · intro w w' hw hhandler hagree
    have hsame := hF.same hw hhandler hagree
    have howned := hF.owned hw
    cases h : F w with
    | error v =>
      cases h' : F w' with
      | error v' => rw [h, h'] at hsame; exact hsame
      | ok v' => rw [h, h'] at hsame; contradiction
    | ok v =>
      cases h' : F w' with
      | error v' => rw [h, h'] at hsame; contradiction
      | ok v' =>
        rw [h, h'] at hsame
        rw [h] at howned
        exact hG.same howned hsame.1 hsame.2

theorem Confined.foldlM {F : Work → α → Except Work Work} (hF : ∀ a, Confined S fun w => F w a)
    (l : List α) : Confined S fun w => l.foldlM F w := by
  induction l with
  | nil =>
    exact ⟨fun _ _ _ => rfl, fun _ => rfl, fun hw => hw, fun _ hhandler hagree => ⟨hhandler, hagree⟩⟩
  | cons a l ih =>
    simp only [List.foldlM_cons]
    exact (hF a).bind ih

end Confined

section Turn

variable {faults : Faults} {codec : Codec Object} {print : Letter → Bytes} {opts : Options}
variable {S : Text → Prop} {file : Text}

theorem openClean_confined (hclean : S (cleanFile file)) : Confined S (openClean faults file) := by
  unfold openClean
  split
  · exact ⟨fun _ _ _ => rfl, fun _ => rfl, fun hw => hw, fun _ hhandler hagree => ⟨hhandler, hagree⟩⟩
  · exact ⟨fun _ p hp => Disk.bytes_write_of_not hclean hp _ _, fun _ => rfl, fun hw => hw,
      fun _ hhandler hagree => ⟨hhandler, hagree.write _ _⟩⟩

theorem settled_handleMsg (l : Letter) (w : Work) :
    (∃ n, w.handler = .drop n ∧ settled (handleMsg faults print l w) = ⟨w.disk, .drop 1⟩) ∨
      settled (handleMsg faults print l w) = w ∨
      ∃ name opened n s, w.handler = .file name opened n ∧
        settled (handleMsg faults print l w) =
          ⟨(if opened then w.disk else w.disk.write name []).append name s,
            .file name true 1⟩ := by
  cases w with
  | mk disk handler =>
    unfold handleMsg
    cases handler with
    | drop n =>
      refine .inl ⟨n, rfl, ?_⟩
      simp only
      split
      · rfl
      · rfl
    | file name opened n =>
      right
      simp only
      split
      · exact .inl rfl
      · split
        · exact .inr ⟨name, opened, n, _, rfl, rfl⟩
        · exact .inr ⟨name, opened, n, _, rfl, rfl⟩

theorem handleMsg_confined (l : Letter) : Confined S (handleMsg faults print l) := by
  constructor
  · intro w hw p hp
    obtain ⟨n, -, hset⟩ | hset | ⟨name, opened, n, s, hname, hset⟩ :=
      @settled_handleMsg faults print l w
    · rw [hset]
    · rw [hset]
    · have hS : S name := hw name (by rw [hname]; rfl)
      rw [hset]
      apply (Disk.bytes_write_of_not hS hp _ _).trans
      cases opened with
      | true => rfl
      | false => exact Disk.bytes_write_of_not hS hp _ _
  · intro w
    obtain ⟨n, -, hset⟩ | hset | ⟨name, opened, n, s, -, hset⟩ :=
      @settled_handleMsg faults print l w
    · rw [hset]
    · rw [hset]
    · rw [hset]
      cases opened with
      | true => rfl
      | false => rfl
  · intro w hw
    obtain ⟨n, -, hset⟩ | hset | ⟨name, opened, n, s, hname, hset⟩ :=
      @settled_handleMsg faults print l w
    · rw [hset]
      intro name hname
      contradiction
    · rw [hset]
      exact hw
    · rw [hset]
      intro other hother
      apply hw other
      rw [hname]
      exact hother
  · intro w w' hw hhandler hagree
    obtain ⟨disk, handler⟩ := w
    obtain ⟨disk', handler'⟩ := w'
    obtain rfl : handler = handler' := hhandler
    cases handler with
    | drop n => unfold handleMsg; simp only; split <;> exact ⟨rfl, hagree⟩
    | file name opened n =>
      have hname : S name := hw name rfl
      have hopened : Agree S (if opened then disk else disk.write name [])
          (if opened then disk' else disk'.write name []) := by
        cases opened with
        | true => exact hagree
        | false => exact hagree.write _ _
      unfold handleMsg
      simp only [hopened.content hname]
      split
      · exact ⟨rfl, hagree⟩
      · split
        · exact ⟨rfl, hopened.append hname _⟩
        · exact ⟨rfl, hopened.append hname _⟩

theorem unpackOne_confined (hclean : S (cleanFile file)) (obj : Object) :
    Confined S fun w => unpackOne faults codec print opts file w obj := by
  unfold unpackOne
  cases inspect opts obj with
  | error l => exact handleMsg_confined l
  | ok u =>
    exact ⟨fun _ p hp => Disk.bytes_write_of_not hclean hp _ _, fun _ => rfl, fun hw => hw,
      fun _ hhandler hagree => ⟨hhandler, hagree.append hclean _⟩⟩

theorem loop_confined (hclean : S (cleanFile file)) (s : Bytes) : Confined S fun w =>
    (codec.readAll s).1.foldlM (unpackOne faults codec print opts file) w >>= fun behind =>
      if (codec.readAll s).2 = .malformed then .error behind else .ok behind := by
  refine (Confined.foldlM (unpackOne_confined hclean) _).bind ?_
  split
  · exact ⟨fun _ _ _ => rfl, fun _ => rfl, fun hw => hw, fun _ hhandler hagree => ⟨hhandler, hagree⟩⟩
  · exact ⟨fun _ _ _ => rfl, fun _ => rfl, fun hw => hw, fun _ hhandler hagree => ⟨hhandler, hagree⟩⟩

theorem eachMessage_frame (hclean : S (cleanFile file)) {w : Work} (hw : Owned S w) {p : Text}
    (hp : ¬ S p) :
    (settled (eachMessage faults codec print opts file w)).disk.bytes p = w.disk.bytes p := by
  unfold eachMessage
  split
  · rfl
  · exact (loop_confined hclean _).frame hw p hp

theorem eachMessage_confined (hfile : S file) (hclean : S (cleanFile file)) :
    Confined S (eachMessage faults codec print opts file) := by
  constructor
  · intro w hw p hp
    exact eachMessage_frame hclean hw hp
  · intro w
    unfold eachMessage
    split
    · rfl
    · exact (loop_confined hclean _).dirs w
  · intro w hw
    unfold eachMessage
    split
    · exact hw
    · exact (loop_confined hclean _).owned hw
  · intro w w' hw hhandler hagree
    unfold eachMessage
    rw [hagree file hfile]
    split
    · exact ⟨hhandler, hagree⟩
    · exact (loop_confined hclean _).same hw hhandler hagree

theorem replaceChunk_confined (hfile : S file) (hclean : S (cleanFile file)) :
    Confined S (replaceChunk faults file) := by
  constructor
  · intro w hw p hp
    unfold replaceChunk
    split
    · rfl
    · split
      · exact (Disk.bytes_rm_of_not hclean hp _).trans (Disk.bytes_write_of_not hfile hp _ _)
      · exact Disk.bytes_rm_of_not hclean hp _
  · intro w
    unfold replaceChunk
    split
    · rfl
    · split <;> rfl
  · intro w hw
    unfold replaceChunk
    split
    · exact hw
    · split <;> exact hw
  · intro w w' hw hhandler hagree
    unfold replaceChunk
    rw [hhandler]
    split
    · exact ⟨hhandler, hagree⟩
    · split
      · exact ⟨rfl, hagree.mv hclean _⟩
      · exact ⟨rfl, hagree.rm _⟩

theorem unpack_confined (hfile : S file) (hclean : S (cleanFile file)) :
    Confined S (unpack faults codec print opts file) :=
  (openClean_confined hclean).bind ((eachMessage_confined hfile hclean).bind
    (replaceChunk_confined hfile hclean))

/-- Letters can be written, or there are none to write. -/
def CanWrite (faults : Faults) (opts : Options) (disk : Disk) : Prop :=
  opts.dlqDir = dropWord ∨ opts.dlqDir ∈ disk.dirs ∨
    (faults.denied opts.dlqDir = false ∧ parent opts.dlqDir ∈ disk.dirs ∧
      disk.bytes opts.dlqDir = none)

theorem initDlqHandler_cases (file : Text) (disk : Disk) :
    (initDlqHandler faults opts file disk = none ∧ ¬ CanWrite faults opts disk) ∨
      ∃ dirs, initDlqHandler faults opts file disk =
          some ⟨{ disk with dirs := dirs }, startHandler opts file⟩ ∧
        CanWrite faults opts disk ∧ (opts.dlqDir = dropWord ∨ opts.dlqDir ∈ dirs) := by
  unfold initDlqHandler startHandler CanWrite
  by_cases hdrop : opts.dlqDir = dropWord
  · exact .inr ⟨disk.dirs, by rw [if_pos hdrop, if_pos hdrop], .inl hdrop, .inl hdrop⟩
  · rw [if_neg hdrop, if_neg hdrop]
    by_cases hdir : opts.dlqDir ∈ disk.dirs
    · rw [if_pos hdir]
      exact .inr ⟨disk.dirs, rfl, .inr (.inl hdir), .inr hdir⟩
    · rw [if_neg hdir, Disk.mkdir]
      cases hdenied : faults.denied opts.dlqDir with
      | true => exact .inl ⟨rfl, by simp [hdrop, hdir]⟩
      | false =>
        by_cases hfree : parent opts.dlqDir ∈ disk.dirs ∧ disk.bytes opts.dlqDir = none
        · rw [if_pos hfree]
          exact .inr ⟨opts.dlqDir :: disk.dirs, rfl, .inr (.inr ⟨rfl, hfree⟩), .inr List.mem_cons_self⟩
        · rw [if_neg hfree]
          exact .inl ⟨rfl, by simpa [hdrop, hdir] using hfree⟩

def Mine (opts : Options) (file p : Text) : Prop :=
  p = file ∨ p = cleanFile file ∨ (opts.dlqDir ≠ dropWord ∧ p = dlqPath opts file)

theorem owned_startHandler (disk : Disk) : Owned (Mine opts file) ⟨disk, startHandler opts file⟩ := by
  intro name hname
  unfold startHandler at hname
  split at hname
  · contradiction
  · rename_i hdir
    exact .inr (.inr ⟨hdir, (Option.some.inj hname).symm⟩)

theorem unpack_mine : Confined (Mine opts file) (unpack faults codec print opts file) :=
  unpack_confined (.inl rfl) (.inr (.inl rfl))

theorem sanitizeFile_frame {disk : Disk} {p : Text} (hp : ¬ Mine opts file p) :
    (sanitizeFile faults codec print opts disk file).bytes p = disk.bytes p := by
  unfold sanitizeFile turn
  split
  · rfl
  · rcases @initDlqHandler_cases faults opts file disk with ⟨hinit, -⟩ | ⟨dirs, hinit, -⟩
    · rw [hinit]
      rfl
    · rw [hinit]
      exact unpack_mine.frame (owned_startHandler _) p hp

theorem sanitizeFile_canWrite (disk : Disk) : CanWrite faults opts
    (sanitizeFile faults codec print opts disk file) ↔ CanWrite faults opts disk := by
  unfold sanitizeFile turn
  split
  · rfl
  · rcases @initDlqHandler_cases faults opts file disk with ⟨hinit, -⟩ | ⟨dirs, hinit, hcan, hdir⟩
    · rw [hinit]
      rfl
    · rw [hinit]
      have hdirs := (@unpack_mine faults codec print opts file).dirs
        ⟨{ disk with dirs := dirs }, startHandler opts file⟩
      refine iff_of_true ?_ hcan
      rw [CanWrite, hdirs]
      exact hdir.imp_right .inl

theorem Same.agree {r r' : Except Work Work} (h : Same S r r') :
    Agree S (settled r).disk (settled r').disk := by
  cases r with
  | ok w => cases r' with
    | ok w' => exact h.2
    | error w' => contradiction
  | error w => cases r' with
    | ok w' => contradiction
    | error w' => exact h.2

/-- What a turn makes of its files depends on them alone. -/
theorem sanitizeFile_same {disk disk' : Disk} (hagree : Agree (Mine opts file) disk disk')
    (hcan : CanWrite faults opts disk ↔ CanWrite faults opts disk') :
    Agree (Mine opts file) (sanitizeFile faults codec print opts disk file)
      (sanitizeFile faults codec print opts disk' file) := by
  unfold sanitizeFile turn
  split
  · exact hagree
  · rcases @initDlqHandler_cases faults opts file disk with ⟨hinit, hno⟩ | ⟨dirs, hinit, hyes, -⟩
    · rcases @initDlqHandler_cases faults opts file disk' with ⟨hinit', -⟩ | ⟨_, -, hyes, -⟩
      · rw [hinit, hinit']
        exact hagree
      · exact absurd (hcan.mpr hyes) hno
    · rcases @initDlqHandler_cases faults opts file disk' with ⟨-, hno⟩ | ⟨dirs', hinit', -, -⟩
      · exact absurd (hcan.mp hyes) hno
      · rw [hinit, hinit']
        exact (@Confined.same _ _ (@unpack_mine faults codec print opts file)
          ⟨{ disk with dirs := dirs }, startHandler opts file⟩
          ⟨{ disk' with dirs := dirs' }, startHandler opts file⟩ (owned_startHandler _) rfl hagree).agree

/-- An error leaves the chunk as it was: it is only replaced behind the last step. -/
theorem turn_error {disk : Disk} {w : Work}
    (h : turn faults codec print opts disk file = .error w) : w.disk.bytes file = disk.bytes file := by
  have hself : ¬ (file ≠ file) := not_not_intro rfl
  have hclean : cleanFile file ≠ file := (cleanFile_ne file).symm
  unfold turn at h
  rcases @initDlqHandler_cases faults opts file disk with ⟨hinit, -⟩ | ⟨dirs, hinit, -⟩
  · rw [hinit] at h
    rw [← Except.error.inj h]
  · rw [hinit] at h
    have howned : Owned (· ≠ file) ⟨{ disk with dirs := dirs }, startHandler opts file⟩ := by
      intro name hname
      rcases owned_startHandler { disk with dirs := dirs } name hname with rfl | rfl | ⟨-, rfl⟩
      · exact absurd hname (startHandler_name (dlqPath_ne opts name))
      · exact hclean
      · exact (dlqPath_ne opts file).symm
    have hopen := @openClean_confined faults (· ≠ file) file hclean
    have hstart := hopen.frame howned file hself
    have hstarted := hopen.owned howned
    rcases bind_error.mp h with h | ⟨started, hstart', h⟩
    · rw [h] at hstart
      exact hstart
    · rw [hstart'] at hstart hstarted
      have heach := @eachMessage_frame faults codec print opts _ file hclean started hstarted file hself
      rcases bind_error.mp h with h | ⟨behind, hbehind, h⟩
      · rw [h] at heach
        exact heach.trans hstart
      · rw [hbehind] at heach
        unfold replaceChunk at h
        split at h
        · rw [← Except.error.inj h]
          exact heach.trans hstart
        · split at h <;> contradiction

end Turn

end AggregatedLogging.Chunks
