import AggregatedLogging.Chunks.Outcome

/-! The number of dropped records that the script reports about a chunk. -/
namespace AggregatedLogging.Chunks

open Wire Ruby
open Python (Dict Key)

section Report

variable (faults : Faults) (codec : Codec Object) (print : Letter → Bytes) (opts : Options)

def recordsIn (disk : Disk) (file : Text) : List Object := (codec.readAll (disk.content file)).1

open Classical in
noncomputable def lostRecords (disk : Disk) (file : Text) : List Object :=
  (recordsIn codec disk file).filter fun obj =>
    obj ∉ recordsIn codec (sanitizeFile faults codec print opts disk file) file

end Report

variable {faults : Faults} {codec : Codec Object} {print : Letter → Bytes} {opts : Options}

theorem length_rejected (objs : List Object) :
    (objs.filter fun obj => !(inspect opts obj).isOk).length = (rejected opts objs).length := by
  induction objs with
  | nil => rfl
  | cons obj objs ih =>
    cases hinspect : inspect opts obj with
    | ok u => rw [rejected_ok hinspect, List.filter_cons_of_neg (by simp [hinspect, Except.isOk, Except.toBool]), ih]
    | error l =>
      rw [rejected_error hinspect, List.filter_cons_of_pos (by simp [hinspect, Except.isOk, Except.toBool]),
        List.length_cons, ih, List.length_cons]

section Turn

variable {disk : Disk} {file : Text} {s : Bytes}

theorem lostRecords_kept
    (h : (sanitizeFile faults codec print opts disk file).bytes file = disk.bytes file) :
    lostRecords faults codec print opts disk file = [] := by
  rw [lostRecords, recordsIn, recordsIn, Disk.content_congr h, List.filter_eq_nil_iff]
  intro obj hobj
  simpa using hobj

theorem lostRecords_replaced (hs : disk.bytes file = some s)
    (h : (sanitizeFile faults codec print opts disk file).bytes file =
      some ((accepted opts (codec.readAll s).1).flatMap codec.write)) :
    (lostRecords faults codec print opts disk file).length =
      (rejected opts (codec.readAll s).1).length := by
  have hbefore : recordsIn codec disk file = (codec.readAll s).1 := by
    rw [recordsIn, Disk.content, hs]
    rfl
  have hread : ∀ obj ∈ accepted opts (codec.readAll s).1, codec.Readable obj :=
    fun obj hobj => Codec.readable_of_mem (List.mem_of_mem_filter hobj)
  have hafter : recordsIn codec (sanitizeFile faults codec print opts disk file) file =
      accepted opts (codec.readAll s).1 := by
    rw [recordsIn, Disk.content, h, Option.getD_some, Codec.readAll_writes hread]
  rw [lostRecords, hbefore, hafter, ← length_rejected]
  congr 1
  refine List.filter_congr fun obj hobj => ?_
  have hmem : obj ∈ accepted opts (codec.readAll s).1 ↔ (inspect opts obj).isOk = true := by
    rw [accepted, List.mem_filter, and_iff_right hobj]
  simp [hmem]

theorem sanitizeReport_ok (hsuffix : ¬ cleanSuffix.isSuffixOf file = true) {w : Work}
    (h : turn faults codec print opts disk file = .ok w) :
    sanitizeReport faults codec print opts disk file =
      if 0 < w.handler.dropped then some w.handler.dropped else none := by
  rw [sanitizeReport, if_neg hsuffix, h]

theorem sanitizeReport_error (hsuffix : ¬ cleanSuffix.isSuffixOf file = true) {w : Work}
    (h : turn faults codec print opts disk file = .error w) :
    sanitizeReport faults codec print opts disk file = none := by
  rw [sanitizeReport, if_neg hsuffix, h]

/-- The report is right unless more than one record is dropped. -/
theorem report_iff (hfile : IsChunk opts disk file) :
    (sanitizeReport faults codec print opts disk file).getD 0 =
        (lostRecords faults codec print opts disk file).length ↔
      (rejected opts (recordsIn codec disk file)).length ≤ 1 ∨
        ¬ (CanWrite faults opts disk ∧ Spared faults codec print opts file (disk.content file)) := by
  obtain ⟨s, hs⟩ := Option.isSome_iff_exists.mp hfile.1
  have hcontent : disk.content file = s := congrArg (Option.getD · []) hs
  have hsuffix : ¬ cleanSuffix.isSuffixOf file = true := mt List.isSuffixOf_iff_suffix.mp hfile.2.2
  have hbehind : sanitizeFile faults codec print opts disk file =
      (settled (turn faults codec print opts disk file)).disk := if_neg hsuffix
  rw [recordsIn, hcontent]
  rcases @turn_cases faults codec print opts file disk s hs with
    ⟨hspared, w, hok, hunpacked, hdropped⟩ | ⟨hstruck, w, herror⟩
  · have hchunk := hunpacked.chunk
    have hreport := sanitizeReport_ok hsuffix hok
    rw [hok] at hbehind
    by_cases hnone : rejected opts (codec.readAll s).1 = []
    · rw [if_pos hnone] at hchunk hdropped
      have hkept : (sanitizeFile faults codec print opts disk file).bytes file = disk.bytes file := by
        rw [hbehind, hs]
        exact hchunk
      rw [hreport, lostRecords_kept hkept]
      refine iff_of_true ?_ (.inl (by rw [hnone]; exact Nat.zero_le 1))
      simp [hdropped]
    · rw [if_neg hnone] at hchunk hdropped
      rw [hreport, lostRecords_replaced hs (by rw [hbehind]; exact hchunk)]
      have hpos := List.length_pos_iff.mpr hnone
      simp only [hdropped, Nat.zero_lt_one, if_true, Option.getD_some, hspared, and_self,
        not_true_eq_false, or_false]
      omega
  · have hkept : (sanitizeFile faults codec print opts disk file).bytes file = disk.bytes file := by
      rw [hbehind, herror]
      exact turn_error herror
    rw [sanitizeReport_error hsuffix herror, lostRecords_kept hkept]
    exact iff_of_true rfl (.inr hstruck)

end Turn

/-- One record is dropped and reported. -/
theorem report_iff_one :
    (sanitizeReport .none eventCodec (fun _ => []) oneOptions (oneDisk (0xc0 :: eventBytes))
        oneChunk).getD 0 =
        (lostRecords .none eventCodec (fun _ => []) oneOptions (oneDisk (0xc0 :: eventBytes))
          oneChunk).length ↔
      (rejected oneOptions (recordsIn eventCodec (oneDisk (0xc0 :: eventBytes)) oneChunk)).length ≤ 1 ∨
        ¬ (CanWrite .none oneOptions (oneDisk (0xc0 :: eventBytes)) ∧
          Spared .none eventCodec (fun _ => []) oneOptions oneChunk
            ((oneDisk (0xc0 :: eventBytes)).content oneChunk)) :=
  report_iff (oneChunk_isChunk _)

/-- Two records are dropped, and the report says one. -/
theorem not_report_two :
    (sanitizeReport .none eventCodec (fun _ => []) oneOptions (oneDisk [0xc0, 0xc0]) oneChunk).getD 0 =
        1 ∧
      (lostRecords .none eventCodec (fun _ => []) oneOptions (oneDisk [0xc0, 0xc0]) oneChunk).length =
        2 := by
  have hs : (oneDisk [0xc0, 0xc0]).bytes oneChunk = some [0xc0, 0xc0] := by
    rw [bytes_oneDisk, if_pos rfl]
  refine ⟨by decide +kernel, ?_⟩
  rw [lostRecords_replaced hs (by decide +kernel)]
  decide

end AggregatedLogging.Chunks
