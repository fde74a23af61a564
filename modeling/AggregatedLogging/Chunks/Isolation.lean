import AggregatedLogging.Chunks.Outcome

/-! What an aborted chunk does to itself and to the other chunks. -/
namespace AggregatedLogging.Chunks

open Wire Ruby
open Python (Dict Key)

section Run

variable {faults : Faults} {codec : Codec Object} {print : Letter → Bytes} {opts : Options}
variable {disk : Disk} {file : Text}

/-- The two runs: they differ in the files of one chunk only. -/
def Alike (faults : Faults) (opts : Options) (file : Text) (d d' : Disk) : Prop :=
  Agree (fun p => ¬ Mine opts file p) d d' ∧ (CanWrite faults opts d ↔ CanWrite faults opts d')

theorem alike_own {d d' : Disk} (h : Alike faults opts file d d') :
    Alike faults opts file (sanitizeFile faults codec print opts d file) d' := by
  refine ⟨fun p hp => ?_, (sanitizeFile_canWrite d).trans h.2⟩
  rw [sanitizeFile_frame hp, h.1 p hp]

theorem alike_other (hfile : IsChunk opts disk file) (hseparate : Separate opts disk file) {g : Text}
    (hg : (disk.bytes g).isSome = true ∧ isChild opts.dir g = true) (hne : g ≠ file) {d d' : Disk}
    (h : Alike faults opts file d d') :
    Alike faults opts file (sanitizeFile faults codec print opts d g)
      (sanitizeFile faults codec print opts d' g) := by
  by_cases hsuffix : cleanSuffix <:+ g
  · rw [sanitizeFile_suffix hsuffix, sanitizeFile_suffix hsuffix]
    exact h
  · have hdisjoint : ∀ p, Mine opts g p → ¬ Mine opts file p :=
      fun p hp => mine_disjoint hfile hseparate ⟨hg.1, hg.2, hsuffix⟩ hne hp
    have hsame := @sanitizeFile_same faults codec print opts g d d'
      (fun p hp => h.1 p (hdisjoint p hp)) h.2
    refine ⟨fun p hp => ?_, (sanitizeFile_canWrite d).trans (h.2.trans (sanitizeFile_canWrite d').symm)⟩
    by_cases hmine : Mine opts g p
    · exact hsame p hmine
    · rw [sanitizeFile_frame hmine, sanitizeFile_frame hmine, h.1 p hp]

theorem alike_others (hfile : IsChunk opts disk file) (hseparate : Separate opts disk file)
    {gs : List Text} (hgs : ∀ g ∈ gs, ((disk.bytes g).isSome = true ∧ isChild opts.dir g = true) ∧ g ≠ file)
    {d d' : Disk} (h : Alike faults opts file d d') :
    Alike faults opts file (sanitize faults codec print opts gs d)
      (sanitize faults codec print opts gs d') := by
  induction gs generalizing d d' with
  | nil => exact h
  | cons g gs ih =>
    rw [List.forall_mem_cons] at hgs
    exact ih hgs.2 (alike_other hfile hseparate hgs.1.1 hgs.1.2 h)

/-- An aborted chunk keeps its bytes, and the other chunks end as in a run without it.
It must not keep the directory of the dead letters from being made. -/
theorem isolated {files before after : List Text} (hlisting : IsListing opts disk files)
    (hfile : IsChunk opts disk file) (hseparate : Separate opts disk file)
    (hfree : file ≠ opts.dlqDir)
    (hsplit : files = before ++ file :: after)
    (hfails : Fails faults codec print opts (sanitize faults codec print opts before disk) file) :
    (sanitize faults codec print opts files disk).bytes file = disk.bytes file ∧
      IsListing opts (disk.rm file) (before ++ after) ∧
      ∀ g, IsChunk opts disk g → g ≠ file →
        (sanitize faults codec print opts files disk).bytes g =
          (sanitize faults codec print opts (before ++ after) (disk.rm file)).bytes g := by
  have hnodup := hlisting.1
  rw [hsplit, List.nodup_middle, List.nodup_cons] at hnodup
  have hothers : ∀ g ∈ before ++ after,
      ((disk.bytes g).isSome = true ∧ isChild opts.dir g = true) ∧ g ≠ file := by
    intro g hg
    refine ⟨(hlisting.2 g).mp ?_, ne_of_mem_of_not_mem hg hnodup.1⟩
    rw [hsplit]
    exact List.mem_append.mpr ((List.mem_append.mp hg).imp_right (List.mem_cons_of_mem file))
  have hbefore := fun g hg => hothers g (List.mem_append_left after hg)
  have hafter := fun g hg => hothers g (List.mem_append_right before hg)
  have hrun : sanitize faults codec print opts files disk =
      sanitize faults codec print opts after (sanitizeFile faults codec print opts
        (sanitize faults codec print opts before disk) file) := by
    rw [hsplit, sanitize, List.foldl_append, List.foldl_cons]
    rfl
  refine ⟨?_, ⟨hnodup.2, fun g => ?_⟩, fun g hg hne => ?_⟩
  · obtain ⟨w, hw⟩ := hfails
    rw [hrun, sanitize_own hfile hseparate hafter (.inl rfl), sanitizeFile,
      if_neg (mt List.isSuffixOf_iff_suffix.mp hfile.2.2), hw]
    exact (turn_error hw).trans (sanitize_own hfile hseparate hbefore (.inl rfl) disk)
  · rw [Disk.bytes_rm]
    by_cases hne : g = file
    · rw [if_pos hne]
      refine iff_of_false (fun hg => (hothers g hg).2 hne) ?_
      rintro ⟨hsome, -⟩
      contradiction
    · rw [if_neg hne, ← hlisting.2 g, hsplit, List.mem_append, List.mem_append, List.mem_cons,
        or_iff_right hne]
  · have hstart : Alike faults opts file disk (disk.rm file) := by
      refine ⟨fun p hp => ?_, ?_⟩
      · rw [Disk.bytes_rm, if_neg (fun h : p = file => hp (.inl h))]
      · rw [CanWrite, CanWrite, Disk.bytes_rm, if_neg hfree.symm]
        rfl
    have hmiddle := @alike_others faults codec print opts disk file hfile hseparate before hbefore _ _ hstart
    have hend := @alike_others faults codec print opts disk file hfile hseparate after hafter _ _
      (@alike_own faults codec print opts file _ _ hmiddle)
    have hother : ¬ Mine opts file g := mine_disjoint hfile hseparate hg hne (.inl rfl)
    rw [hrun, hend.1 g hother]
    simp only [sanitize, List.foldl_append]

end Run

def twoChunks (other : Text) (s : Bytes) : Disk where
  files := Dict.ofList [(Key.str oneChunk, [0xc0, 0xc1]), (Key.str other, s)]
  dirs := ["/b".toList, "/q".toList]

theorem bytes_twoChunks (other : Text) (s : Bytes) (path : Text) :
    (twoChunks other s).bytes path =
      if path = other then some s else if path = oneChunk then some [0xc0, 0xc1] else none := by
  change (((Dict.empty.insert (Key.str oneChunk) [0xc0, 0xc1]).insert (Key.str other) s).get?
    (Key.str path)) = _
  rw [Dict.get?_insert, Dict.get?_insert, Dict.get?_empty]
  simp only [Key.str_inj]

def otherChunk : Text := "/b/c".toList

theorem mem_twoChunks {other : Text} {s : Bytes} {path : Text}
    (h : ((twoChunks other s).bytes path).isSome = true) : path = oneChunk ∨ path = other := by
  rw [bytes_twoChunks] at h
  split at h
  · rename_i hpath
    exact .inr hpath
  · split at h
    · rename_i hpath
      exact .inl hpath
    · contradiction

theorem isolated_malformed :
    (sanitize .none eventCodec (fun _ => [0x6c]) oneOptions [oneChunk, otherChunk]
        (twoChunks otherChunk [0xc0])).bytes oneChunk = (twoChunks otherChunk [0xc0]).bytes oneChunk ∧
      IsListing oneOptions ((twoChunks otherChunk [0xc0]).rm oneChunk) ([] ++ [otherChunk]) ∧
      ∀ g, IsChunk oneOptions (twoChunks otherChunk [0xc0]) g → g ≠ oneChunk →
        (sanitize .none eventCodec (fun _ => [0x6c]) oneOptions [oneChunk, otherChunk]
            (twoChunks otherChunk [0xc0])).bytes g =
          (sanitize .none eventCodec (fun _ => [0x6c]) oneOptions ([] ++ [otherChunk])
            ((twoChunks otherChunk [0xc0]).rm oneChunk)).bytes g := by
  have hother : otherChunk ≠ oneChunk := by decide
  have hone : IsChunk oneOptions (twoChunks otherChunk [0xc0]) oneChunk := by
    refine ⟨?_, by decide, by decide⟩
    rw [bytes_twoChunks, if_neg hother.symm, if_pos rfl]
    rfl
  have hlisting : IsListing oneOptions (twoChunks otherChunk [0xc0]) [oneChunk, otherChunk] := by
    refine ⟨by decide, fun g => ⟨fun hg => ?_, fun hg => ?_⟩⟩
    · rcases List.mem_pair.mp hg with rfl | rfl
      · exact ⟨hone.1, hone.2.1⟩
      · refine ⟨?_, by decide⟩
        rw [bytes_twoChunks, if_pos rfl]
        rfl
    · exact List.mem_pair.mpr (mem_twoChunks hg.1)
  have hseparate : Separate oneOptions (twoChunks otherChunk [0xc0]) oneChunk := by
    refine .inr fun g hg => ?_
    rcases mem_twoChunks hg.1 with rfl | rfl
    · exact ⟨by decide, by decide⟩
    · exact ⟨by decide, by decide⟩
  exact isolated hlisting hone hseparate (by decide) rfl ⟨_, rfl⟩

def sharedOptions : Options := { oneOptions with dlqDir := "/b".toList }

def letterChunk : Text := "/b/a.dlq".toList

/-- Then those of a failing chunk take the place of another chunk. -/
theorem not_isolated_shared :
    Fails .none eventCodec (fun _ => [0x6c]) sharedOptions (twoChunks letterChunk eventBytes) oneChunk ∧
      IsChunk sharedOptions (twoChunks letterChunk eventBytes) letterChunk ∧
      (sanitize .none eventCodec (fun _ => [0x6c]) sharedOptions [oneChunk, letterChunk]
          (twoChunks letterChunk eventBytes)).bytes letterChunk = some [0x6c] ∧
        (sanitize .none eventCodec (fun _ => [0x6c]) sharedOptions [letterChunk]
          ((twoChunks letterChunk eventBytes).rm oneChunk)).bytes letterChunk = some eventBytes := by
  refine ⟨⟨_, rfl⟩, ⟨?_, by decide, by decide⟩, by decide +kernel, by decide +kernel⟩
  rw [bytes_twoChunks, if_pos rfl]
  rfl

end AggregatedLogging.Chunks
