import AggregatedLogging.Python.Except
import AggregatedLogging.Relp.Frame

/-! What is received of the frames that are sent: all of them, one after the other, wherever the
stream of octets is cut. -/
namespace AggregatedLogging.Relp

open Receiver
open Python (map_ok exists_mapM_ok mapM_eq_map)

/-- What librelp sends: the numbers have nine digits at most, and a command is a word. -/
structure Frame.Sendable (f : Frame) : Prop where
  txnr : f.txnr < 1000000000
  cmd : ∀ c ∈ f.cmd, isAlpha c = true
  cmdLength : f.cmd.length ≤ 32
  dataLength : f.data.length < 1000000000

section Parts

/-! The receiver by what it has read of the part that it is in. -/

def inTxnr (i txnr : Nat) : Rcv := some { rcvState := .inTxnr, iRcv := i, txnr }

def inCmd (txnr : Nat) (cmd : Octets) : Rcv :=
  some { rcvState := .inCmd, iRcv := cmd.length, txnr, cmd }

def inDatalen (txnr : Nat) (cmd : Octets) (i lenData : Nat) : Rcv :=
  some { rcvState := .inDatalen, iRcv := i, txnr, cmd, lenData }

def inData (txnr : Nat) (cmd : Octets) (lenData n : Nat) (data : Octets) : Rcv :=
  some { rcvState := .inData, iRcv := data.length, txnr, cmd, lenData, maxCharsStore := n,
         pData := data.take n }

variable (lim : Limits)

theorem feed_first {c : Octet} (h : isDigit c = true) (cs : Octets) :
    feed (rcvOctet lim) none (c :: cs) = feed (rcvOctet lim) (inTxnr 0 0) (c :: cs) := by
  have hstep : rcvOctet lim none c = rcvOctet lim (inTxnr 0 0) c := if_pos h
  rw [feed, feed, hstep]

theorem feed_digits {part : Nat → Nat → Rcv}
    (hpart : ∀ i n c, isDigit c = true → i ≠ 9 →
      rcvOctet lim (part i n) c = .more (part (i + 1) (n * 10 + digitValue c)))
    {ds : Octets} (hds : ∀ c ∈ ds, isDigit c = true) (i n : Nat) (hlength : i + ds.length ≤ 9) :
    feed (rcvOctet lim) (part i n) ds = ([], .ok (part (i + ds.length) (readDigits n ds))) := by
  induction ds generalizing i n with
  | nil => rfl
  | cons c ds ih =>
    rw [List.length_cons] at hlength
    have hstep := hpart i n c (hds c List.mem_cons_self) (by omega)
    rw [feed_more hstep, ih (fun d hd => hds d (List.mem_cons_of_mem c hd)) _ _ (by omega),
      List.length_cons, Nat.add_assoc, Nat.add_comm 1]
    rfl

theorem rcvOctet_inTxnr (i n : Nat) (c : Octet) (hc : isDigit c = true) (hi : i ≠ 9) :
    rcvOctet lim (inTxnr i n) c = .more (inTxnr (i + 1) (n * 10 + digitValue c)) :=
  (if_pos hc).trans (if_neg hi)

theorem rcvOctet_inDatalen (txnr : Nat) (cmd : Octets) (i n : Nat) (c : Octet)
    (hc : isDigit c = true) (hi : i ≠ 9) :
    rcvOctet lim (inDatalen txnr cmd i n) c =
      .more (inDatalen txnr cmd (i + 1) (n * 10 + digitValue c)) :=
  (if_pos hc).trans (if_neg hi)

theorem feed_inCmd (txnr : Nat) (cmd : Octets) {ls : Octets} (hls : ∀ c ∈ ls, isAlpha c = true)
    (hlength : cmd.length + ls.length ≤ 32) :
    feed (rcvOctet lim) (inCmd txnr cmd) ls = ([], .ok (inCmd txnr (cmd ++ ls))) := by
  induction ls generalizing cmd with
  | nil => rw [List.append_nil]; rfl
  | cons c ls ih =>
    rw [List.length_cons] at hlength
    have hstep : rcvOctet lim (inCmd txnr cmd) c = .more (inCmd txnr (cmd ++ [c])) := by
      refine ((if_pos (hls c List.mem_cons_self)).trans
        (if_neg (by change ¬ cmd.length = 32; omega))).trans ?_
      change Step.more (some (RcvFrame.mk .inCmd (cmd.length + 1) txnr (cmd ++ [c]) 0 0 [])) = _
      rw [inCmd, List.length_append, List.length_singleton]
    have hmore : (cmd ++ [c]).length + ls.length ≤ 32 := by
      rw [List.length_append, List.length_singleton]
      omega
    rw [feed_more hstep, ih _ (fun d hd => hls d (List.mem_cons_of_mem c hd)) hmore,
      List.append_assoc, List.singleton_append]

theorem feed_inData (txnr : Nat) (cmd : Octets) {lenData : Nat} (n : Nat) {got data : Octets}
    (hlength : got.length + data.length ≤ lenData) :
    feed (rcvOctet lim) (inData txnr cmd lenData n got) data =
      ([], .ok (inData txnr cmd lenData n (got ++ data))) := by
  induction data generalizing got with
  | nil => rw [List.append_nil]; rfl
  | cons c data ih =>
    rw [List.length_cons] at hlength
    have hstored : (if got.length < n then got.take n ++ [c] else got.take n) =
        (got ++ [c]).take n := by
      split
      · rename_i hroom
        rw [List.take_of_length_le (Nat.le_of_lt hroom), List.take_of_length_le]
        rw [List.length_append, List.length_singleton]
        omega
      · rename_i hfull
        rw [List.take_append_of_le_length (Nat.le_of_not_lt hfull)]
    have hstep : rcvOctet lim (inData txnr cmd lenData n got) c =
        .more (inData txnr cmd lenData n (got ++ [c])) := by
      refine (if_pos (by change got.length < lenData; omega)).trans ?_
      change Step.more (some (RcvFrame.mk .inData (got.length + 1) txnr cmd lenData n
        (if got.length < n then got.take n ++ [c] else got.take n))) = _
      rw [hstored, inData, List.length_append, List.length_singleton]
    have hmore : (got ++ [c]).length + data.length ≤ lenData := by
      rw [List.length_append, List.length_singleton]
      omega
    rw [feed_more hstep, ih hmore, List.append_assoc, List.singleton_append]

theorem rcvOctet_space (txnr : Nat) (cmd : Octets) (i : Nat) {lenData : Nat} (h : 0 < lenData) :
    rcvOctet lim (inDatalen txnr cmd i lenData) space =
      match lim.store? lenData with
      | none => .fault .dataTooLong
      | some n => .more (inData txnr cmd lenData n []) := by
  have hdigit : isDigit space = false := by decide
  change rcvDatalen lim (RcvFrame.mk .inDatalen i txnr cmd lenData 0 []) space = _
  rw [rcvDatalen, hdigit, if_neg Bool.false_ne_true, if_neg (Nat.ne_of_gt h), if_pos rfl]
  cases lim.store? lenData with
  | none => rfl
  | some n =>
    simp only [inData, List.take_nil]
    rfl

theorem rcvOctet_newline (txnr : Nat) (cmd : Octets) (i : Nat) :
    rcvOctet lim (inDatalen txnr cmd i 0) newline = .item ⟨txnr, cmd, []⟩ none := by
  have hdigit : isDigit newline = false := by decide
  change rcvDatalen lim (RcvFrame.mk .inDatalen i txnr cmd 0 0 []) newline = _
  rw [rcvDatalen, hdigit, if_neg Bool.false_ne_true, if_pos rfl]
  rfl

end Parts

section Frames

variable {lim : Limits} {f : Frame}

theorem Frame.Sendable.printLength (hf : f.Sendable) :
    printLength f.data = decimal f.data.length :=
  printLength_small (Nat.lt_trans hf.dataLength (by decide))

def Frame.header (f : Frame) : Octets :=
  decimal f.txnr ++ space :: (f.cmd ++ space :: decimal f.data.length)

theorem Frame.Sendable.wire (hf : f.Sendable) : f.wire =
    f.header ++ (if 0 < f.data.length then space :: f.data else []) ++ [newline] := by
  unfold Frame.wire afterTxnr Frame.header
  rw [hf.printLength]
  simp only [List.append_assoc, List.cons_append]

theorem feed_header (lim : Limits) (hf : f.Sendable) : ∃ i, feed (rcvOctet lim) none f.header =
    ([], .ok (inDatalen f.txnr f.cmd i f.data.length)) := by
  have htxnr := feed_digits lim (rcvOctet_inTxnr lim) (decimal_digits f.txnr) 0 0
    (by rw [Nat.zero_add]; exact (length_decimal_le_iff _).mpr hf.txnr)
  have hcmd := feed_inCmd lim f.txnr [] hf.cmd
    (by rw [List.length_nil, Nat.zero_add]; exact hf.cmdLength)
  have hlength := feed_digits lim (rcvOctet_inDatalen lim f.txnr f.cmd)
    (decimal_digits f.data.length) 0 0
    (by rw [Nat.zero_add]; exact (length_decimal_le_iff _).mpr hf.dataLength)
  rw [readDigits_decimal] at htxnr hlength
  rw [List.nil_append] at hcmd
  have hspace (i : Nat) :
      rcvOctet lim (inTxnr i f.txnr) space = .more (inCmd f.txnr []) := rfl
  have hspace' : rcvOctet lim (inCmd f.txnr f.cmd) space = .more (inDatalen f.txnr f.cmd 0 0) := rfl
  refine ⟨0 + (decimal f.data.length).length, ?_⟩
  have hfirst : feed (rcvOctet lim) none (decimal f.txnr) =
      feed (rcvOctet lim) (inTxnr 0 0) (decimal f.txnr) := by
    cases hds : decimal f.txnr with
    | nil => exact absurd hds (decimal_ne_nil _)
    | cons c cs =>
      exact feed_first lim (decimal_digits f.txnr c (hds ▸ List.mem_cons_self)) cs
  rw [Frame.header, feed_append (hfirst.trans htxnr), feed_more (hspace _), feed_append hcmd,
    feed_more hspace', hlength]
  rfl

/-- The frame as a session has it, that stores only the first octets of the data. -/
def Frame.cut (f : Frame) (n : Nat) : Frame := { f with data := f.data.take n }

theorem carries (hf : f.Sendable) {n : Nat} (hstore : lim.store? f.data.length = some n) :
    Carries (rcvOctet lim) none f.wire (f.cut n) none := by
  obtain ⟨i, hheader⟩ := feed_header lim hf
  rw [hf.wire]
  by_cases hdata : 0 < f.data.length
  · have hspace := rcvOctet_space lim f.txnr f.cmd i hdata
    rw [hstore] at hspace
    have hlength : List.length ([] : Octets) + f.data.length ≤ f.data.length :=
      Nat.le_of_eq (Nat.zero_add _)
    have hread := feed_inData lim f.txnr f.cmd n hlength
    rw [List.nil_append] at hread
    rw [if_pos hdata]
    refine ⟨_, newline, inData f.txnr f.cmd f.data.length n f.data, rfl, ?_, ?_⟩
    · rw [feed_append hheader, feed_more hspace, hread]
      rfl
    · exact (if_neg (Nat.lt_irrefl _)).trans (if_pos rfl)
  · have hempty : f.data = [] := List.eq_nil_of_length_eq_zero (by omega)
    rw [if_neg hdata, List.append_nil]
    rw [hempty, List.length_nil] at hheader
    refine ⟨_, newline, _, rfl, hheader, ?_⟩
    rw [rcvOctet_newline, Frame.cut, hempty, List.take_nil]

theorem feed_refused (hf : f.Sendable) (hstore : lim.store? f.data.length = none) (rest : Octets) :
    feed (rcvOctet lim) none (f.wire ++ rest) = ([], .error .dataTooLong) := by
  obtain ⟨i, hheader⟩ := feed_header lim hf
  have hdata : 0 < f.data.length := by
    by_contra hempty
    rw [Limits.store?, if_pos (by omega)] at hstore
    contradiction
  have hspace := rcvOctet_space lim f.txnr f.cmd i hdata
  rw [hstore] at hspace
  rw [hf.wire, if_pos hdata, List.append_assoc, List.append_assoc, feed_append hheader,
    List.cons_append, feed_fault hspace]
  rfl

end Frames

section Streams

structure IsWord (cmd : Octets) : Prop where
  letters : ∀ c ∈ cmd, isAlpha c = true
  length : cmd.length ≤ 32

def Countable (data : Octets) : Prop := data.length < 2147483648

theorem buildFrame_ok {txnr : Nat} {cmd data : Octets} {f : Frame}
    (h : buildFrame txnr cmd data = .ok f) :
    f = ⟨txnr, cmd, data⟩ ∧ txnr < 1000000000 ∧ (printLength data).length ≤ 9 := by
  unfold buildFrame at h
  split at h
  · contradiction
  · rename_i htxnr
    split at h
    · contradiction
    · rename_i hlength
      cases h
      exact ⟨rfl, (length_decimal_le_iff _).mp (Nat.le_of_not_lt htxnr), Nat.le_of_not_lt hlength⟩

theorem sendable_buildFrame {txnr : Nat} {cmd data : Octets} {f : Frame} (hcmd : IsWord cmd)
    (hdata : Countable data) (h : buildFrame txnr cmd data = .ok f) : f.Sendable := by
  obtain ⟨rfl, htxnr, hlength⟩ := buildFrame_ok h
  rw [printLength_small hdata] at hlength
  exact ⟨htxnr, hcmd.letters, hcmd.length, (length_decimal_le_iff _).mp hlength⟩

theorem length_afterTxnr (cmd data : Octets) : (afterTxnr cmd data).length =
    1 + cmd.length + 1 + (printLength data).length + 1 +
      if 0 < data.length then 1 + data.length else 0 := by
  unfold afterTxnr
  split
  · simp only [List.length_append, List.length_cons, List.length_nil]
    omega
  · simp only [List.length_append, List.length_cons, List.length_nil]
    omega

/-- The buffer in memory holds a frame: its number stands at the end of the reserved octets, and
the rest behind them. -/
structure Sendbuf.Holds (b : Sendbuf) (cmd data : Octets) : Prop where
  lenTxnr : b.lenTxnr ≤ 9
  reserved : 9 ≤ b.pData.length
  rest : b.pData.drop 9 = afterTxnr cmd data ++ [0]
  lenData : b.lenData = b.lenTxnr + (afterTxnr cmd data).length

theorem Frame.sendbuf_holds {f : Frame} (h : (decimal f.txnr).length ≤ 9) :
    f.sendbuf.Holds f.cmd f.data := by
  have hfront : (List.replicate (9 - (decimal f.txnr).length) 0 ++ decimal f.txnr).length = 9 := by
    rw [List.length_append, List.length_replicate]
    omega
  have hdata : f.sendbuf.pData = (List.replicate (9 - (decimal f.txnr).length) 0 ++
      decimal f.txnr) ++ (afterTxnr f.cmd f.data ++ [0]) := List.append_assoc _ _ _
  refine ⟨h, ?_, ?_, ?_⟩
  · rw [hdata, List.length_append, hfront]
    omega
  · rw [hdata, List.drop_append_of_le_length (Nat.le_of_eq hfront.symm),
      List.drop_of_length_le (Nat.le_of_eq hfront), List.nil_append]
  · rw [length_afterTxnr]
    change (decimal f.txnr).length + 1 + _ + 1 + _ + 1 + _ = (decimal f.txnr).length + _
    omega

theorem Frame.sendbuf_wire {f : Frame} (h : (decimal f.txnr).length ≤ 9) :
    f.sendbuf.wire = f.wire := by
  have hfront : (List.replicate (9 - (decimal f.txnr).length) (0 : Octet)).length =
      9 - (decimal f.txnr).length := List.length_replicate
  have hlength : f.sendbuf.lenData = f.wire.length := by
    rw [(sendbuf_holds h).lenData, Frame.wire, List.length_append]
    rfl
  have hdata : f.sendbuf.pData = List.replicate (9 - (decimal f.txnr).length) 0 ++
      (f.wire ++ [0]) := by
    change _ ++ _ ++ _ ++ _ = _
    rw [Frame.wire, List.append_assoc, List.append_assoc, List.append_assoc]
  change (f.sendbuf.pData.drop (9 - (decimal f.txnr).length)).take f.sendbuf.lenData = _
  rw [hdata, hlength, List.drop_append_of_le_length (Nat.le_of_eq hfront.symm),
    List.drop_of_length_le (Nat.le_of_eq hfront), List.nil_append,
    List.take_append_of_le_length (Nat.le_refl _), List.take_length]

theorem rewriteTxnr_long (b : Sendbuf) {txnr : Nat} (h : 9 < (decimal txnr).length) :
    rewriteTxnr b txnr = (.invalidTxnr, { b with txnr }) := if_pos h

theorem rewriteTxnr_short (b : Sendbuf) {txnr : Nat} (h : (decimal txnr).length ≤ 9) :
    rewriteTxnr b txnr =
      (.ok, Sendbuf.mk txnr
        (b.pData.take (9 - (decimal txnr).length) ++ decimal txnr ++ b.pData.drop 9)
        (b.lenData - b.lenTxnr + (decimal txnr).length) (decimal txnr).length) :=
  if_neg (Nat.not_lt.mpr h)

theorem rewriteTxnr_holds {b : Sendbuf} {cmd data : Octets} (hb : b.Holds cmd data) (txnr : Nat) :
    (rewriteTxnr b txnr).2.Holds cmd data := by
  rcases Nat.lt_or_ge 9 (decimal txnr).length with hlong | hshort
  · rw [rewriteTxnr_long b hlong]
    exact ⟨hb.lenTxnr, hb.reserved, hb.rest, hb.lenData⟩
  · have hreserved := hb.reserved
    have hlength := hb.lenData
    have hfront : (b.pData.take (9 - (decimal txnr).length) ++ decimal txnr).length = 9 := by
      rw [List.length_append, List.length_take]
      omega
    rw [rewriteTxnr_short b hshort]
    refine ⟨hshort, ?_, ?_, ?_⟩
    · rw [List.length_append, hfront]
      omega
    · rw [List.drop_append_of_le_length (Nat.le_of_eq hfront.symm),
        List.drop_of_length_le (Nat.le_of_eq hfront), List.nil_append]
      exact hb.rest
    · change b.lenData - b.lenTxnr + (decimal txnr).length = (decimal txnr).length + _
      omega

theorem rewriteTxnr_wire {b : Sendbuf} {cmd data : Octets} (hb : b.Holds cmd data) {txnr : Nat}
    (h : (decimal txnr).length ≤ 9) :
    (rewriteTxnr b txnr).1 = .ok ∧ (rewriteTxnr b txnr).2.wire = (Frame.mk txnr cmd data).wire := by
  have hreserved := hb.reserved
  have hlength := hb.lenData
  have hfront : (b.pData.take (9 - (decimal txnr).length)).length = 9 - (decimal txnr).length := by
    rw [List.length_take]
    omega
  have hwire : (Frame.mk txnr cmd data).wire = decimal txnr ++ afterTxnr cmd data := rfl
  have hsum : b.lenData - b.lenTxnr + (decimal txnr).length =
      (decimal txnr ++ afterTxnr cmd data).length := by
    rw [List.length_append]
    omega
  rw [rewriteTxnr_short b h]
  refine ⟨rfl, ?_⟩
  change ((b.pData.take (9 - (decimal txnr).length) ++ decimal txnr ++ b.pData.drop 9).drop
    (9 - (decimal txnr).length)).take (b.lenData - b.lenTxnr + (decimal txnr).length) = _
  rw [hsum, hb.rest, List.append_assoc, List.drop_append_of_le_length (Nat.le_of_eq hfront.symm),
    List.drop_of_length_le (Nat.le_of_eq hfront), List.nil_append, ← List.append_assoc,
    List.take_append_of_le_length (Nat.le_refl _), List.take_length, hwire]

/-- The buffer after a number of reconnections, of which some may have come too late. -/
def rewritten (b : Sendbuf) (txnrs : List Nat) : Sendbuf :=
  txnrs.foldl (fun b txnr => (rewriteTxnr b txnr).2) b

theorem rewritten_holds {b : Sendbuf} {cmd data : Octets} (hb : b.Holds cmd data)
    (txnrs : List Nat) : (rewritten b txnrs).Holds cmd data := by
  induction txnrs generalizing b with
  | nil => exact hb
  | cons txnr txnrs ih => exact ih (rewriteTxnr_holds hb txnr)

theorem rewritten_length {b : Sendbuf} {cmd data : Octets} (hb : b.Holds cmd data)
    (txnrs : List Nat) : (rewritten b txnrs).pData.length = b.pData.length := by
  induction txnrs generalizing b with
  | nil => rfl
  | cons txnr txnrs ih =>
    refine (ih (rewriteTxnr_holds hb txnr)).trans ?_
    rcases Nat.lt_or_ge 9 (decimal txnr).length with hlong | hshort
    · rw [rewriteTxnr_long b hlong]
    · have hreserved := hb.reserved
      rw [rewriteTxnr_short b hshort]
      simp only [List.length_append, List.length_take, List.length_drop]
      omega

theorem buildSendbuf_ok {txnr : Nat} {cmd data : Octets} {b : Sendbuf}
    (h : buildSendbuf txnr cmd data = .ok b) :
    buildFrame txnr cmd data = .ok ⟨txnr, cmd, data⟩ ∧ b = (Frame.mk txnr cmd data).sendbuf := by
  obtain ⟨f, hf, rfl⟩ := map_ok.mp h
  obtain ⟨rfl, -, -⟩ := buildFrame_ok hf
  exact ⟨hf, rfl⟩

/-- However often the number of a send buffer is rewritten, the buffer then sends what a
frame built with the last number sends, and it keeps its place. -/
theorem rewritten_wire {txnr : Nat} {cmd data : Octets} {b : Sendbuf}
    (h : buildSendbuf txnr cmd data = .ok b) (txnrs : List Nat) {last : Nat}
    (hlast : last < 1000000000) :
    ∃ fresh, buildSendbuf last cmd data = .ok fresh ∧
      (rewriteTxnr (rewritten b txnrs) last).1 = .ok ∧
      (rewriteTxnr (rewritten b txnrs) last).2.wire = fresh.wire ∧
      (rewritten b txnrs).pData.length = b.pData.length := by
  obtain ⟨hframe, rfl⟩ := buildSendbuf_ok h
  obtain ⟨-, htxnr, hlength⟩ := buildFrame_ok hframe
  have hdigits := (length_decimal_le_iff last).mpr hlast
  have hfresh : buildFrame last cmd data = .ok ⟨last, cmd, data⟩ := by
    rw [buildFrame, if_neg (Nat.not_lt.mpr hdigits), if_neg (Nat.not_lt.mpr hlength)]
  have hholds := @Frame.sendbuf_holds ⟨txnr, cmd, data⟩ ((length_decimal_le_iff txnr).mpr htxnr)
  obtain ⟨hok, hwire⟩ := rewriteTxnr_wire (rewritten_holds hholds txnrs) hdigits
  refine ⟨(Frame.mk last cmd data).sendbuf, ?_, hok, ?_, rewritten_length hholds txnrs⟩
  · rw [buildSendbuf, hfresh]
    rfl
  · exact hwire.trans (Frame.sendbuf_wire hdigits).symm

def lateFrame : Frame := ⟨345, octets "syslog", octets "up"⟩

theorem rewritten_wire_lateFrame :
    ∃ fresh, buildSendbuf 12 (octets "syslog") (octets "up") = .ok fresh ∧
      (rewriteTxnr (rewritten lateFrame.sendbuf [1000000000]) 12).1 = .ok ∧
      (rewriteTxnr (rewritten lateFrame.sendbuf [1000000000]) 12).2.wire = fresh.wire ∧
      (rewritten lateFrame.sendbuf [1000000000]).pData.length = lateFrame.sendbuf.pData.length := by
  have hbuilt : buildSendbuf 345 (octets "syslog") (octets "up") = .ok lateFrame.sendbuf := rfl
  exact rewritten_wire hbuilt [1000000000] (by decide)

theorem built_wire {fs : List Frame} {bs : List Sendbuf}
    (hbuilt : fs.mapM (fun f => buildSendbuf f.txnr f.cmd f.data) = .ok bs)
    (hfs : ∀ f ∈ fs, IsWord f.cmd ∧ Countable f.data) :
    (∀ f ∈ fs, f.Sendable) ∧
      ∀ k, (bs.take k).flatMap Sendbuf.wire = (fs.take k).flatMap Frame.wire := by
  have hsendable : ∀ f ∈ fs, f.Sendable := by
    intro f hf
    obtain ⟨b, hb⟩ := exists_mapM_ok.mp ⟨bs, hbuilt⟩ f hf
    exact sendable_buildFrame (hfs f hf).1 (hfs f hf).2 (buildSendbuf_ok hb).1
  have hbs : bs = fs.map Frame.sendbuf := mapM_eq_map hbuilt fun f b hb => (buildSendbuf_ok hb).2
  refine ⟨hsendable, fun k => ?_⟩
  rw [hbs, ← List.map_take, List.flatMap_map]
  refine List.flatMap_congr fun f hf => Frame.sendbuf_wire ?_
  exact (length_decimal_le_iff _).mpr (hsendable f (List.mem_of_mem_take hf)).txnr

variable {H : Type} {lim : Limits} {handlers : Handlers H}

def takes (lim : Limits) (handlers : Handlers H) (sess : Sess H) (f : Frame) :
    Option (Frame × Sess H) :=
  (lim.store? f.data.length).bind fun n =>
    match submit lim handlers sess (f.cut n) with
    | .ok next => some (f.cut n, next)
    | .error _ => none

theorem carries_takes {f : Frame} (hf : f.Sendable) {sess next : Sess H} {stored : Frame}
    (h : takes lim handlers sess f = some (stored, next)) :
    Carries (processOctetRcvd lim handlers) (none, sess) f.wire stored (none, next) := by
  obtain ⟨n, hn, hsubmit⟩ := Option.bind_eq_some_iff.mp h
  cases hok : submit lim handlers sess (f.cut n) with
  | error e =>
    rw [hok] at hsubmit
    contradiction
  | ok after =>
    rw [hok] at hsubmit
    cases hsubmit
    exact (carries hf hn).checked hok

theorem feed_not_taken {f : Frame} (hf : f.Sendable) {sess : Sess H}
    (h : takes lim handlers sess f = none) (rest : Octets) :
    (feed (processOctetRcvd lim handlers) (none, sess) (f.wire ++ rest)).1 = [] := by
  cases hn : lim.store? f.data.length with
  | none =>
    have hquiet : feed (processOctetRcvd lim handlers) (none, sess) (f.wire ++ rest) =
        ([], .error .dataTooLong) := feed_checked (feed_refused hf hn rest)
    rw [hquiet]
  | some n =>
    rw [takes, hn, Option.bind_some] at h
    cases hsubmit : submit lim handlers sess (f.cut n) with
    | ok after =>
      rw [hsubmit] at h
      contradiction
    | error e =>
      have hfault : feed (processOctetRcvd lim handlers) (none, sess) (f.wire ++ rest) =
          ([], .error e) := (carries hf hn).refused hsubmit rest
      rw [hfault]

def messages (n : Nat) : List Octets → List Frame
  | [] => []
  | data :: rest => ⟨n, octets "syslog", data⟩ :: messages (nextTxnr n) rest

/-- The number is the one that a server expects; a client does not look at it. -/
theorem submit_message {n : Nat} (hn : n ≠ 0) {sess : Sess H}
    (hserver : lim.oversizeMode.isSome = true → n = sess.txnr) (data : Octets) :
    ∃ next, submit lim handlers sess ⟨n, octets "syslog", data⟩ = .ok next ∧
      (lim.oversizeMode.isSome = true → nextTxnr n = next.txnr) := by
  have hdispatch : dispatchFrame handlers sess.handled ⟨n, octets "syslog", data⟩ =
      .ok (handlers .syslog sess.handled ⟨n, octets "syslog", data⟩).2 := rfl
  unfold submit
  rw [hdispatch]
  by_cases hmode : lim.oversizeMode.isSome = true
  · rw [if_pos ⟨hn, hmode⟩, if_neg (not_not.mpr (hserver hmode))]
    exact ⟨_, rfl, fun _ => congrArg nextTxnr (hserver hmode)⟩
  · rw [if_neg fun h => hmode h.2]
    exact ⟨_, rfl, fun h => absurd h hmode⟩

theorem takes_message {n : Nat} (hn : n ≠ 0) {sess : Sess H}
    (hserver : lim.oversizeMode.isSome = true → n = sess.txnr) {data : Octets} {k : Nat}
    (hstore : lim.store? data.length = some k) :
    ∃ next, takes lim handlers sess ⟨n, octets "syslog", data⟩ =
        some (⟨n, octets "syslog", data.take k⟩, next) ∧
      (lim.oversizeMode.isSome = true → nextTxnr n = next.txnr) := by
  obtain ⟨next, hsubmit, hnext⟩ := @submit_message H lim handlers n hn sess hserver (data.take k)
  refine ⟨next, ?_, hnext⟩
  unfold takes Frame.cut
  rw [hstore, Option.bind_some, hsubmit]

theorem nextTxnr_ne_zero (n : Nat) : nextTxnr n ≠ 0 := by
  unfold nextTxnr
  split
  · decide
  · exact Nat.succ_ne_zero n

def Limits.stored (lim : Limits) (f : Frame) : Frame :=
  f.cut ((lim.store? f.data.length).getD 0)

def Limits.wants (lim : Limits) (f : Frame) : Bool := (lim.store? f.data.length).isSome

theorem taken_messages {n : Nat} (hn : n ≠ 0) {sess : Sess H}
    (hserver : lim.oversizeMode.isSome = true → n = sess.txnr) (datas : List Octets) :
    taken (takes lim handlers) sess (messages n datas) =
      ((messages n datas).takeWhile lim.wants).map lim.stored := by
  induction datas generalizing n sess with
  | nil => rfl
  | cons data datas ih =>
    cases hstore : lim.store? data.length with
    | none =>
      have hnone : takes lim handlers sess ⟨n, octets "syslog", data⟩ = none := by
        rw [takes, hstore, Option.bind_none]
      have hwants : lim.wants ⟨n, octets "syslog", data⟩ = false := by
        rw [Limits.wants, hstore, Option.isSome_none]
      rw [messages, taken, hnone, List.takeWhile_cons_of_neg (Bool.eq_false_iff.mp hwants)]
      rfl
    | some k =>
      obtain ⟨next, htakes, hnext⟩ := @takes_message H lim handlers n hn sess hserver data k hstore
      have hwants : lim.wants ⟨n, octets "syslog", data⟩ = true := by
        rw [Limits.wants, hstore, Option.isSome_some]
      rw [messages, taken, htakes, List.takeWhile_cons_of_pos hwants, List.map_cons,
        ← ih (nextTxnr_ne_zero n) hnext, Limits.stored, hstore]
      rfl

def twoMessages : List Frame := messages 2 [octets "up", octets "and running"]

/-- A server that has taken the "open" of its client, and handlers that only count. -/
def opened : Sess Nat := ⟨2, 1⟩

def counting : Handlers Nat := fun _ n _ => (.ok ⟨⟩, n + 1)

end Streams

end AggregatedLogging.Relp
