import AggregatedLogging.Chunks.Turn

/-! When the script leaves a chunk as it should be. -/
namespace AggregatedLogging.Chunks

open Wire Ruby
open Python (Dict Key)

section Outcome

variable (faults : Faults) (codec : Codec Object) (print : Letter → Bytes) (opts : Options)

/-- The chunk holds the accepted messages and nothing else, the dead letters are
those of the rejected ones, and a chunk without a fault is not touched. -/
structure Sanitized (file : Text) (disk disk' : Disk) : Prop where
  decodes : ∃ s, disk'.bytes file = some s ∧
    codec.readAll s = (accepted opts (codec.readAll (disk.content file)).1, .complete)
  letters : opts.dlqDir ≠ dropWord → disk'.content (dlqPath opts file) =
    (rejected opts (codec.readAll (disk.content file)).1).flatMap print
  untouched : rejected opts (codec.readAll (disk.content file)).1 = [] →
    (codec.readAll (disk.content file)).2 = .complete → disk'.bytes file = disk.bytes file

/-- There is nothing to do, and no dead letters are left from another time. -/
structure Intact (file : Text) (disk : Disk) : Prop where
  none : rejected opts (codec.readAll (disk.content file)).1 = []
  complete : (codec.readAll (disk.content file)).2 = .complete
  letters : opts.dlqDir ≠ dropWord → disk.content (dlqPath opts file) = []

/-- A message is rejected, and nothing raises an error. -/
structure Replaced (file : Text) (disk : Disk) : Prop where
  some : rejected opts (codec.readAll (disk.content file)).1 ≠ []
  ready : CanWrite faults opts disk
  spared : Spared faults codec print opts file (disk.content file)

variable {faults codec print opts}
variable {disk disk' : Disk} {file : Text} {s : Bytes}

theorem sanitized_kept (hs : disk.bytes file = some s) (hkept : disk'.bytes file = some s)
    (hnone : rejected opts (codec.readAll s).1 = [])
    (hletters : opts.dlqDir ≠ dropWord →
      disk'.content (dlqPath opts file) = disk.content (dlqPath opts file)) :
    Sanitized codec print opts file disk disk' ↔ Intact codec opts file disk := by
  have hcontent : disk.content file = s := congrArg (Option.getD · []) hs
  constructor
  · intro h
    obtain ⟨s', hs', hread⟩ := h.decodes
    obtain rfl := Option.some.inj (hkept.symm.trans hs')
    have hcomplete := congrArg Prod.snd hread
    refine ⟨hcontent ▸ hnone, hcontent ▸ hcomplete, fun hdir => ?_⟩
    have hwritten := h.letters hdir
    rw [hletters hdir, hcontent, hnone] at hwritten
    exact hwritten
  · rintro ⟨-, hcomplete, hempty⟩
    rw [hcontent] at hcomplete
    refine ⟨⟨s, hkept, ?_⟩, fun hdir => ?_, fun _ _ => hkept.trans hs.symm⟩
    · rw [hcontent, accepted_of_rejected_nil hnone]
      exact Prod.ext rfl hcomplete
    · rw [hletters hdir, hempty hdir, hcontent, hnone]
      rfl

theorem not_sanitized_of_kept (hs : disk.bytes file = some s) (hkept : disk'.bytes file = some s)
    (hsome : rejected opts (codec.readAll s).1 ≠ []) :
    ¬ Sanitized codec print opts file disk disk' := by
  have hcontent : disk.content file = s := congrArg (Option.getD · []) hs
  intro h
  obtain ⟨s', hs', hread⟩ := h.decodes
  obtain rfl := Option.some.inj (hkept.symm.trans hs')
  rw [hcontent] at hread
  have haccepted := congrArg Prod.fst hread
  exact hsome (rejected_nil_of_accepted haccepted.symm)

theorem sanitized_of_unpacked (hs : disk.bytes file = some s)
    (hsome : rejected opts (codec.readAll s).1 ≠ [])
    (h : Unpacked codec print opts file s disk disk') :
    Sanitized codec print opts file disk disk' := by
  have hcontent : disk.content file = s := congrArg (Option.getD · []) hs
  obtain ⟨hchunk, hletters⟩ := h
  rw [if_neg hsome] at hchunk hletters
  have hread : ∀ obj ∈ accepted opts (codec.readAll s).1, codec.Readable obj :=
    fun obj hobj => Codec.readable_of_mem (List.mem_of_mem_filter hobj)
  refine ⟨⟨_, hchunk, ?_⟩, ?_, ?_⟩
  · rw [Codec.readAll_writes hread, hcontent]
  · rw [hcontent]
    exact hletters
  · rw [hcontent]
    intro hnone
    contradiction

theorem Sanitized.congr {found : Disk} (hfound : ∀ p, Mine opts file p → found.bytes p = disk.bytes p)
    {left : Disk} (hleft : ∀ p, Mine opts file p → disk'.bytes p = left.bytes p) :
    Sanitized codec print opts file disk disk' ↔ Sanitized codec print opts file found left := by
  have hself := hfound file (.inl rfl)
  have hself' := hleft file (.inl rfl)
  have hcontent : found.content file = disk.content file := Disk.content_congr hself
  constructor
  · rintro ⟨hdecodes, hletters, huntouched⟩
    refine ⟨?_, fun hdir => ?_, ?_⟩
    · rw [hcontent, ← hself']
      exact hdecodes
    · rw [hcontent, ← hletters hdir]
      exact Disk.content_congr (hleft _ (.inr (.inr ⟨hdir, rfl⟩))).symm
    · rw [hcontent, ← hself', hself]
      exact huntouched
  · rintro ⟨hdecodes, hletters, huntouched⟩
    rw [hcontent] at hdecodes hletters huntouched
    refine ⟨?_, fun hdir => ?_, ?_⟩
    · rw [hself']
      exact hdecodes
    · rw [← hletters hdir]
      exact Disk.content_congr (hleft _ (.inr (.inr ⟨hdir, rfl⟩)))
    · rw [hself', ← hself]
      exact huntouched

theorem Intact.congr {found : Disk} (hfound : ∀ p, Mine opts file p → found.bytes p = disk.bytes p) :
    Intact codec opts file found ↔ Intact codec opts file disk := by
  have hcontent : found.content file = disk.content file := Disk.content_congr (hfound file (.inl rfl))
  have hletters (hdir : opts.dlqDir ≠ dropWord) :
      found.content (dlqPath opts file) = disk.content (dlqPath opts file) :=
    Disk.content_congr (hfound _ (.inr (.inr ⟨hdir, rfl⟩)))
  constructor
  · rintro ⟨hnone, hcomplete, hempty⟩
    rw [hcontent] at hnone hcomplete
    exact ⟨hnone, hcomplete, fun hdir => hletters hdir ▸ hempty hdir⟩
  · rintro ⟨hnone, hcomplete, hempty⟩
    rw [← hcontent] at hnone hcomplete
    exact ⟨hnone, hcomplete, fun hdir => hletters hdir ▸ hempty hdir⟩

/-- The script does its work on a chunk that needs none, and on one with a rejected
message when nothing raises an error.  The end of a chunk without a rejected message
stays as it is, and so does a chunk whose turn is aborted. -/
theorem sanitized_iff {files : List Text} (hlisting : IsListing opts disk files)
    (hfile : IsChunk opts disk file) (hseparate : Separate opts disk file) :
    Sanitized codec print opts file disk (sanitize faults codec print opts files disk) ↔
      Intact codec opts file disk ∨ Replaced faults codec print opts file disk := by
  obtain ⟨s, hs⟩ := Option.isSome_iff_exists.mp hfile.1
  have hcontent : disk.content file = s := congrArg (Option.getD · []) hs
  obtain ⟨found, hfound, hcan, hleft⟩ :=
    @sanitize_turn faults codec print opts disk file files hlisting hfile hseparate
  have hs' : found.bytes file = some s := (hfound file (.inl rfl)).trans hs
  have hturn := @turn_cases faults codec print opts file found s hs'
  have hbehind : sanitizeFile faults codec print opts found file =
      (settled (turn faults codec print opts found file)).disk :=
    if_neg (mt List.isSuffixOf_iff_suffix.mp hfile.2.2)
  rw [Sanitized.congr hfound hleft]
  by_cases hnone : rejected opts (codec.readAll s).1 = []
  · have hkept : (sanitizeFile faults codec print opts found file).bytes file = some s := by
      rcases hturn with ⟨-, w, hok, hunpacked, -⟩ | ⟨-, w, herror⟩
      · have hchunk := hunpacked.chunk
        rw [if_pos hnone] at hchunk
        rw [hbehind, hok]
        exact hchunk
      · rw [hbehind, herror]
        exact (turn_error herror).trans hs'
    rw [sanitized_kept hs' hkept hnone fun hdir => turn_letters_kept hs' hnone hdir]
    have hsame : Intact codec opts file found ↔ Intact codec opts file disk :=
      Intact.congr hfound
    rw [hsame]
    exact ⟨.inl, fun h => h.resolve_right fun hreplaced => hreplaced.some (hcontent ▸ hnone)⟩
  · have hnot : ¬ Intact codec opts file disk := fun h => hnone (hcontent ▸ h.none)
    rcases hturn with ⟨⟨hwrite, hspared⟩, w, hok, hunpacked, -⟩ | ⟨hstruck, w, herror⟩
    · rw [hbehind, hok]
      refine iff_of_true (sanitized_of_unpacked hs' hnone hunpacked) (.inr ⟨?_, hcan.mp hwrite, ?_⟩)
      · rwa [hcontent]
      · rwa [hcontent]
    · have hkept := (turn_error herror).trans hs'
      rw [hbehind, herror]
      refine iff_of_false (not_sanitized_of_kept hs' hkept hnone) (not_or.mpr ⟨hnot, fun h => ?_⟩)
      exact hstruck ⟨hcan.mpr h.ready, hcontent ▸ h.spared⟩

end Outcome

def event : Object := .arr [.int 1, .hash [(.str ['i'], .str ['x'])]]

def eventBytes : Bytes := [0x92, 0x01, 0x81, 0xa1, 0x69, 0xa1, 0x78]

/-- The part of the format that reads `event` and nothing else but `nil`. -/
def eventRead (s : Bytes) : Read Object :=
  match s with
  | [] => .done
  | 0xc0 :: rest => .item .nil rest
  | s =>
    if eventBytes.isPrefixOf s then .item event (s.drop eventBytes.length)
    else if s.isPrefixOf eventBytes then .truncated
    else .malformed

def eventWrite (v : Object) : Bytes := if v.isNil then [0xc0] else eventBytes

theorem eventRead_event (more : Bytes) : eventRead (eventBytes ++ more) = .item event more := by
  have h : eventBytes.isPrefixOf (eventBytes ++ more) = true :=
    List.isPrefixOf_iff_prefix.mpr (List.prefix_append _ _)
  rw [eventRead]
  · rw [if_pos h, List.drop_left]
  · exact nofun
  · intro rest h
    cases h

theorem eventRead_item {s rest : Bytes} {v : Object} (h : eventRead s = .item v rest) :
    (s = 0xc0 :: rest ∧ v = .nil) ∨ (s = eventBytes ++ rest ∧ v = event) := by
  unfold eventRead at h
  split at h
  · contradiction
  · cases h
    exact .inl ⟨rfl, rfl⟩
  · split at h
    · rename_i hprefix
      obtain ⟨more, rfl⟩ := List.isPrefixOf_iff_prefix.mp hprefix
      rw [List.drop_left] at h
      cases h
      exact .inr ⟨rfl, rfl⟩
    · split at h
      · contradiction
      · contradiction

def eventCodec : Codec Object where
  read := eventRead
  write := eventWrite
  read_nil := rfl
  read_shorter := by
    intro s v rest h
    rcases eventRead_item h with ⟨rfl, -⟩ | ⟨rfl, -⟩
    · exact Nat.lt_succ_self _
    · rw [List.length_append]
      exact Nat.lt_add_of_pos_left (by decide)
  read_write := by
    intro s v rest h more
    rcases eventRead_item h with ⟨-, rfl⟩ | ⟨-, rfl⟩
    · rfl
    · exact eventRead_event more

def oneChunk : Text := "/b/a".toList

def oneOptions : Options where
  dir := "/b".toList
  dir_literal := rfl
  dlqDir := "/q".toList
  indexField := ['i']
  checkRecord := none

def oneDisk (s : Bytes) : Disk where
  files := Dict.ofList [(Key.str oneChunk, s)]
  dirs := [oneOptions.dlqDir]

theorem bytes_oneDisk (s : Bytes) (path : Text) :
    (oneDisk s).bytes path = if path = oneChunk then some s else none := by
  rw [Disk.bytes, oneDisk, Dict.get?_ofList]
  by_cases h : path = oneChunk
  · rw [if_pos h, h]
    simp
  · rw [if_neg h]
    simp [h]

theorem oneChunk_isChunk (s : Bytes) : IsChunk oneOptions (oneDisk s) oneChunk := by
  refine ⟨?_, by decide, by decide⟩
  rw [bytes_oneDisk, if_pos rfl]
  rfl

theorem oneChunk_separate (s : Bytes) : Separate oneOptions (oneDisk s) oneChunk := by
  refine .inr fun g hg => ?_
  have hsome := hg.1
  rw [bytes_oneDisk] at hsome
  split at hsome
  · rename_i h
    rw [h]
    exact ⟨by decide, by decide⟩
  · contradiction

theorem oneChunk_listing (s : Bytes) : IsListing oneOptions (oneDisk s) [oneChunk] := by
  refine ⟨List.nodup_singleton _, fun g => ?_⟩
  rw [List.mem_singleton, bytes_oneDisk]
  constructor
  · rintro rfl
    exact ⟨by rw [if_pos rfl]; rfl, by decide⟩
  · rintro ⟨hsome, -⟩
    by_contra hne
    rw [if_neg hne] at hsome
    contradiction

/-- A corrupt message and a message that was cut off. -/
theorem sanitized_iff_corrupt :
    Sanitized eventCodec (fun _ => [0x6c]) oneOptions oneChunk
        (oneDisk (eventBytes ++ 0xc0 :: [0x92]))
        (sanitize .none eventCodec (fun _ => [0x6c]) oneOptions [oneChunk]
          (oneDisk (eventBytes ++ 0xc0 :: [0x92]))) ↔
      Intact eventCodec oneOptions oneChunk (oneDisk (eventBytes ++ 0xc0 :: [0x92])) ∨
        Replaced .none eventCodec (fun _ => [0x6c]) oneOptions oneChunk
          (oneDisk (eventBytes ++ 0xc0 :: [0x92])) :=
  sanitized_iff (oneChunk_listing _) (oneChunk_isChunk _) (oneChunk_separate _)

/-- That chunk is replaced. -/
example : Replaced .none eventCodec (fun _ => [0x6c]) oneOptions oneChunk
    (oneDisk (eventBytes ++ 0xc0 :: [0x92])) :=
  ⟨by decide, .inr (.inl (by decide)), ⟨rfl, rfl, ⟨fun _ => rfl, rfl, trivial⟩, by decide, rfl⟩⟩

/-- A message that was cut off stays in a chunk without a corrupt one, and malformed
bytes stay in any chunk. -/
theorem not_sanitized_cut :
    ¬ Sanitized eventCodec (fun _ => [0x6c]) oneOptions oneChunk (oneDisk (eventBytes ++ [0x92]))
        (sanitize .none eventCodec (fun _ => [0x6c]) oneOptions [oneChunk]
          (oneDisk (eventBytes ++ [0x92]))) ∧
      ¬ Sanitized eventCodec (fun _ => [0x6c]) oneOptions oneChunk (oneDisk [0xc0, 0xc1])
        (sanitize .none eventCodec (fun _ => [0x6c]) oneOptions [oneChunk]
          (oneDisk [0xc0, 0xc1])) := by
  constructor
  · intro h
    have hkept : (sanitize .none eventCodec (fun _ => [0x6c]) oneOptions [oneChunk]
        (oneDisk (eventBytes ++ [0x92]))).bytes oneChunk = some (eventBytes ++ [0x92]) := by
      decide +kernel
    obtain ⟨s, hs, hread⟩ := h.decodes
    obtain rfl := Option.some.inj (hkept.symm.trans hs)
    have hending := congrArg Prod.snd hread
    contradiction
  · have hs : (oneDisk [0xc0, 0xc1]).bytes oneChunk = some [0xc0, 0xc1] := by
      rw [bytes_oneDisk, if_pos rfl]
    exact not_sanitized_of_kept hs (by decide +kernel) (by decide)

end AggregatedLogging.Chunks
