import AggregatedLogging.Relp.Frame
import Mathlib.Data.List.TakeWhile

/-! The offers of the two sides, as `offers.c` of librelp writes and reads them.  Every list has
its newest entry first. -/
namespace AggregatedLogging.Relp

/-- A value, and its integer where the arithmetic of an `int` defines one. -/
structure OfferValue where
  szVal : Octets
  intVal : Option Int
  deriving DecidableEq, Repr

structure Offer where
  szName : Octets
  values : List OfferValue
  deriving DecidableEq, Repr

abbrev Offers := List Offer

section Write

def cString (s : Octets) : Octets := s.takeWhile (· ≠ 0)

/-- `Val * 10 + c - '0'` for all digits, as long as no sum is too large for an `int`. -/
def readInt (n : Nat) : Octets → Option Nat
  | [] => some n
  | c :: s => if n * 10 + c.toNat < 2147483648 then readInt (n * 10 + digitValue c) s else none

/-- The integer of a value: -1 if it does not end with its digits. -/
def intOf (s : Octets) : Option Int :=
  (readInt 0 (s.takeWhile isDigit)).map fun n => if s.all isDigit then n else -1

/-- `relpOfferValueAdd` with a string. -/
def Offer.addValue (o : Offer) (pszVal : Octets) : Offer :=
  { o with values := ⟨cString pszVal, intOf (cString pszVal)⟩ :: o.values }

/-- `relpOfferValueAdd` without one. -/
def Offer.addInt (o : Offer) (intVal : Int) : Offer :=
  { o with values := ⟨printInt intVal, some intVal⟩ :: o.values }

def newOffer (pszName : Octets) : Offer := ⟨cString pszName, []⟩

def comma : Octet := octet ','

def equals : Octet := octet '='

def writeValues : List OfferValue → Octets
  | [] => []
  | [v] => v.szVal
  | v :: w :: vs => v.szVal ++ comma :: writeValues (w :: vs)

def Offer.write (o : Offer) : Octets := o.szName ++ equals :: writeValues o.values

def writeOffers : Offers → Octets
  | [] => []
  | [o] => o.write
  | o :: p :: os => o.write ++ newline :: writeOffers (p :: os)

/-- The text written so far, and the size of the memory for it. -/
structure Buf where
  text : Octets
  size : Nat

/-- `strcpy` behind the text.  There is more memory when what is left, as an unsigned number,
seems too small; the result is none when the string and its zero still do not fit. -/
def Buf.strcpy (b : Buf) (s : Octets) : Option Buf :=
  let size := if (b.size + 2 ^ 64 - b.text.length - 3) % 2 ^ 64 < s.length then b.size + 4096
    else b.size
  if b.text.length + s.length < size then some ⟨b.text ++ s, size⟩ else none

def Buf.putc (b : Buf) (c : Octet) : Option Buf :=
  if b.text.length < b.size then some ⟨b.text ++ [c], b.size⟩ else none

def putValues : List OfferValue → Buf → Option Buf
  | [], b => some b
  | [v], b => b.strcpy v.szVal
  | v :: w :: vs, b => ((b.strcpy v.szVal).bind (·.putc comma)).bind (putValues (w :: vs))

def putOffer (o : Offer) (b : Buf) : Option Buf :=
  ((b.strcpy o.szName).bind (·.putc equals)).bind (putValues o.values)

def putOffers : Offers → Buf → Option Buf
  | [], b => some b
  | [o], b => putOffer o b
  | o :: p :: os, b => ((putOffer o b).bind (·.putc newline)).bind (putOffers (p :: os))

/-- `relpOffersToString`, unless it writes outside of its memory. -/
def offersToString (hdr : Octets) (os : Offers) : Option Octets :=
  (putOffers os ⟨hdr, if 4096 < hdr.length then 4096 + hdr.length else 4096⟩).map Buf.text

end Write

section Read

def maxFeatureName : Nat := 32

def maxFeatureValue : Nat := 255

/-- At most `n` octets in front of one that ends the field, and what is left. -/
def readField (stop : Octet → Bool) : Nat → Octets → Octets × Octets
  | 0, s => ([], s)
  | _ + 1, [] => ([], [])
  | n + 1, c :: s =>
    if stop c then ([], c :: s) else (c :: (readField stop n s).1, (readField stop n s).2)

def endsValue (c : Octet) : Bool := c = comma || c = newline

def readValues : Nat → Octets → Offer → Octets × Offer
  | 0, s, o => (s, o)
  | _ + 1, [], o => ([], o)
  | n + 1, c :: s, o =>
    if c = newline then (c :: s, o)
    else
      let (v, rest) := readField endsValue maxFeatureValue s
      readValues n rest (if v = [] then o else o.addValue v)

/-- `relpOffersConstructFromFrame`.  In a name a line may end. -/
def readWithin : Nat → Octets → Offers → Offers
  | 0, _, os => os
  | _ + 1, [], os => os
  | n + 1, c :: s, os =>
    let (name, rest) := readField (· = equals) maxFeatureName (c :: s)
    let (rest', o) := readValues (rest.length + 1) rest (newOffer name)
    readWithin n rest'.tail (o :: os)

/-- Every offer takes an octet at least. -/
def readOffers (s : Octets) : Offers := readWithin (s.length + 1) s []

end Read

section RoundTrip

structure OfferValue.Plain (v : OfferValue) : Prop where
  nonempty : v.szVal ≠ []
  octets : ∀ c ∈ v.szVal, c ≠ 0 ∧ c ≠ comma ∧ c ≠ newline
  length : v.szVal.length ≤ maxFeatureValue
  intVal : v.intVal = intOf v.szVal
  defined : v.intVal ≠ none

structure Offer.Plain (o : Offer) : Prop where
  octets : ∀ c ∈ o.szName, c ≠ 0 ∧ c ≠ equals
  length : o.szName.length ≤ maxFeatureName
  values : ∀ v ∈ o.values, v.Plain

theorem readField_append {stop : Octet → Bool} {n : Nat} {field rest : Octets}
    (hfield : ∀ c ∈ field, stop c = false) (hlength : field.length ≤ n)
    (hrest : ∀ c ∈ rest.head?, stop c = true) : readField stop n (field ++ rest) = (field, rest) := by
  induction field generalizing n with
  | nil =>
    cases n with
    | zero => rfl
    | succ n =>
      cases rest with
      | nil => rfl
      | cons c rest => rw [List.nil_append, readField, if_pos (hrest c rfl)]
  | cons c field ih =>
    cases n with
    | zero => exact absurd hlength (Nat.not_succ_le_zero _)
    | succ n =>
      have hread := ih (fun d hd => hfield d (List.mem_cons_of_mem c hd))
        (Nat.le_of_succ_le_succ hlength)
      rw [List.cons_append, readField, hfield c List.mem_cons_self, if_neg Bool.false_ne_true,
        hread]

theorem cString_eq {s : Octets} (h : ∀ c ∈ s, c ≠ 0) : cString s = s :=
  List.takeWhile_eq_self_iff.mpr fun c hc => decide_eq_true (h c hc)

theorem OfferValue.Plain.addValue {v : OfferValue} (hv : v.Plain) (o : Offer) :
    o.addValue v.szVal = { o with values := v :: o.values } := by
  have hzero : cString v.szVal = v.szVal := cString_eq fun c hc => (hv.octets c hc).1
  rw [Offer.addValue, hzero, ← hv.intVal]

theorem readValues_end {rest : Octets} (hrest : ∀ c ∈ rest.head?, c = newline) (n : Nat)
    (o : Offer) : readValues n rest o = (rest, o) := by
  cases n with
  | zero => rfl
  | succ n =>
    cases rest with
    | nil => rfl
    | cons c rest => rw [readValues, if_pos (hrest c rfl)]

theorem readValues_write {vs : List OfferValue} (hvs : ∀ v ∈ vs, v.Plain) {rest : Octets}
    (hrest : ∀ c ∈ rest.head?, c = newline) {first : Octet} (hfirst : first ≠ newline) (n : Nat)
    (hn : vs.length < n) (o : Offer) :
    readValues n (first :: (writeValues vs ++ rest)) o =
      (rest, { o with values := vs.reverse ++ o.values }) := by
  have hends : ∀ c ∈ rest.head?, endsValue c = true := by
    intro c hc
    rw [hrest c hc]
    decide
  induction vs generalizing first n o with
  | nil =>
    obtain ⟨m, rfl⟩ : ∃ m, n = m + 1 := ⟨n - 1, by omega⟩
    have hfield : readField endsValue maxFeatureValue ([] ++ rest) = ([], rest) :=
      readField_append (List.forall_mem_nil _) (Nat.zero_le _) hends
    rw [writeValues, readValues, if_neg hfirst, hfield]
    exact readValues_end hrest m o
  | cons v vs ih =>
    rw [List.length_cons] at hn
    obtain ⟨m, rfl⟩ : ∃ m, n = m + 1 := ⟨n - 1, by omega⟩
    have hv := hvs v List.mem_cons_self
    have hstops : ∀ c ∈ v.szVal, endsValue c = false := by
      intro c hc
      obtain ⟨-, hcomma, hnewline⟩ := hv.octets c hc
      rw [endsValue, decide_eq_false hcomma, decide_eq_false hnewline]
      rfl
    have hread (tail : Octets) (htail : ∀ c ∈ tail.head?, endsValue c = true) :
        readValues (m + 1) (first :: (v.szVal ++ tail)) o =
          readValues m tail { o with values := v :: o.values } := by
      rw [readValues, if_neg hfirst, readField_append hstops hv.length htail]
      change readValues m tail (if v.szVal = [] then o else o.addValue v.szVal) = _
      rw [if_neg hv.nonempty, hv.addValue]
    cases vs with
    | nil =>
      rw [writeValues, hread rest hends]
      exact readValues_end hrest m _
    | cons w vs =>
      have hcomma : ∀ c ∈ (comma :: (writeValues (w :: vs) ++ rest)).head?, endsValue c = true := by
        intro c hc
        cases hc
        decide
      rw [writeValues, List.append_assoc, List.cons_append, hread _ hcomma,
        ih (fun u hu => hvs u (List.mem_cons_of_mem v hu)) (by decide) m (by omega),
        @List.reverse_cons _ v, List.append_assoc]
      rfl

def Offer.flip (o : Offer) : Offer := { o with values := o.values.reverse }

theorem length_writeValues {vs : List OfferValue} (hvs : ∀ v ∈ vs, v.Plain) :
    vs.length ≤ (writeValues vs).length := by
  induction vs with
  | nil => exact Nat.zero_le _
  | cons v vs ih =>
    have hv := List.length_pos_of_ne_nil (hvs v List.mem_cons_self).nonempty
    have hrest := ih fun w hw => hvs w (List.mem_cons_of_mem v hw)
    cases vs with
    | nil => exact hv
    | cons w vs =>
      rw [writeValues]
      simp only [List.length_append, List.length_cons] at hrest ⊢
      omega

theorem readWithin_write {o : Offer} (ho : o.Plain) {rest : Octets}
    (hrest : ∀ c ∈ rest.head?, c = newline) (n : Nat) (os : Offers) :
    readWithin (n + 1) (o.write ++ rest) os = readWithin n rest.tail (o.flip :: os) := by
  have hequals : ∀ c ∈ (equals :: (writeValues o.values ++ rest)).head?,
      decide (c = equals) = true := by
    intro c hc
    cases hc
    rfl
  have hname : ∀ c ∈ o.szName, decide (c = equals) = false := fun c hc =>
    decide_eq_false (ho.octets c hc).2
  have hzero : cString o.szName = o.szName := cString_eq fun c hc => (ho.octets c hc).1
  have hread := readField_append hname ho.length hequals
  have hlength := length_writeValues ho.values
  have hneq : equals ≠ newline := by decide
  have hvalues := readValues_write ho.values hrest hneq
    ((equals :: (writeValues o.values ++ rest)).length + 1) (by
      rw [List.length_cons, List.length_append]
      omega) (newOffer o.szName)
  have hwritten : o.write ++ rest = o.szName ++ equals :: (writeValues o.values ++ rest) := by
    rw [Offer.write, List.append_assoc, List.cons_append]
  have hflip : { newOffer o.szName with values := o.values.reverse ++ (newOffer o.szName).values } =
      o.flip := by
    rw [newOffer, hzero, List.append_nil]
    rfl
  rw [hflip] at hvalues
  rw [hwritten]
  cases hs : o.szName ++ equals :: (writeValues o.values ++ rest) with
  | nil => exact absurd hs (by simp)
  | cons c s =>
    rw [hs] at hread
    rw [readWithin, hread]
    simp only [hvalues]

theorem readWithin_nil (n : Nat) (os : Offers) : readWithin n [] os = os := by
  cases n <;> rfl

theorem length_writeOffers (os : Offers) : os.length ≤ (writeOffers os).length := by
  induction os with
  | nil => exact Nat.zero_le _
  | cons o os ih =>
    cases os with
    | nil =>
      rw [writeOffers, Offer.write]
      simp only [List.length_append, List.length_cons, List.length_nil]
      omega
    | cons p os =>
      rw [writeOffers]
      simp only [List.length_append, List.length_cons] at ih ⊢
      omega

theorem readWithin_writeOffers {os : Offers} (hos : ∀ o ∈ os, o.Plain) {n : Nat}
    (hn : os.length ≤ n) (before : Offers) :
    readWithin n (writeOffers os) before = (os.map Offer.flip).reverse ++ before := by
  induction os generalizing n before with
  | nil => exact readWithin_nil n before
  | cons o os ih =>
    have ho := hos o List.mem_cons_self
    rw [List.length_cons] at hn
    obtain ⟨m, rfl⟩ : ∃ m, n = m + 1 := ⟨n - 1, by omega⟩
    rw [List.map_cons, List.reverse_cons, List.append_assoc, List.singleton_append]
    cases os with
    | nil =>
      have hread : readWithin (m + 1) (o.write ++ []) before = _ :=
        readWithin_write ho (by intro c hc; contradiction) m before
      rw [List.append_nil] at hread
      exact hread.trans (readWithin_nil m _)
    | cons p os =>
      have hnewline : ∀ c ∈ (newline :: writeOffers (p :: os)).head?, c = newline := by
        intro c hc
        cases hc
        rfl
      rw [writeOffers, readWithin_write ho hnewline, List.tail_cons]
      exact ih (fun q hq => hos q (List.mem_cons_of_mem o hq)) (by omega) (o.flip :: before)

theorem Offer.Plain.flip {o : Offer} (ho : o.Plain) : o.flip.Plain :=
  ⟨ho.octets, ho.length, fun v hv => ho.values v (List.mem_reverse.mp hv)⟩

theorem flip_flip (o : Offer) : o.flip.flip = o := by
  rw [Offer.flip, Offer.flip, List.reverse_reverse]

theorem readOffers_writeOffers {os : Offers} (hos : ∀ o ∈ os, o.Plain) :
    readOffers (writeOffers os) = (os.map Offer.flip).reverse := by
  have hlength := length_writeOffers os
  rw [readOffers, readWithin_writeOffers hos (by omega), List.append_nil]

/-- Where three octets of the first memory are left behind it, the text is written. -/
def Appends (f : Buf → Option Buf) (t : Octets) : Prop :=
  ∀ b : Buf, b.size = 4096 → b.text.length + t.length + 3 ≤ 4096 → f b = some ⟨b.text ++ t, 4096⟩

theorem appends_strcpy (t : Octets) : Appends (·.strcpy t) t := by
  intro b hsize h
  have hleft : ¬ (b.size + 2 ^ 64 - b.text.length - 3) % 2 ^ 64 < t.length := by omega
  change b.strcpy t = _
  simp only [Buf.strcpy, if_neg hleft]
  rw [if_pos (by omega), hsize]

theorem appends_putc (c : Octet) : Appends (·.putc c) [c] := by
  intro b hsize h
  change b.putc c = _
  rw [Buf.putc, if_pos (by omega), hsize]

theorem Appends.bind {f g : Buf → Option Buf} {t u : Octets} (hf : Appends f t)
    (hg : Appends g u) : Appends (fun b => (f b).bind g) (t ++ u) := by
  intro b hsize h
  rw [List.length_append] at h
  change (f b).bind g = _
  rw [hf b hsize (by omega), Option.bind_some]
  refine (hg ⟨b.text ++ t, 4096⟩ rfl ?_).trans ?_
  · rw [List.length_append]
    omega
  · rw [List.append_assoc]

theorem appends_nil : Appends some [] := by
  intro b hsize _
  rw [List.append_nil, ← hsize]

theorem appends_values (vs : List OfferValue) : Appends (putValues vs) (writeValues vs) := by
  induction vs with
  | nil => exact appends_nil
  | cons v vs ih =>
    cases vs with
    | nil => exact appends_strcpy v.szVal
    | cons w vs =>
      have hvalue := ((appends_strcpy v.szVal).bind (appends_putc comma)).bind ih
      rwa [List.append_assoc, List.singleton_append] at hvalue

theorem appends_offer (o : Offer) : Appends (putOffer o) o.write := by
  have hoffer := ((appends_strcpy o.szName).bind (appends_putc equals)).bind
    (appends_values o.values)
  rwa [List.append_assoc, List.singleton_append] at hoffer

theorem appends_offers (os : Offers) : Appends (putOffers os) (writeOffers os) := by
  induction os with
  | nil => exact appends_nil
  | cons o os ih =>
    cases os with
    | nil => exact appends_offer o
    | cons p os =>
      have hoffers := ((appends_offer o).bind (appends_putc newline)).bind ih
      rwa [List.append_assoc, List.singleton_append] at hoffers

theorem offersToString_ok {hdr : Octets} {os : Offers}
    (h : hdr.length + (writeOffers os).length + 3 ≤ 4096) :
    offersToString hdr os = some (hdr ++ writeOffers os) := by
  have hsize : (if 4096 < hdr.length then 4096 + hdr.length else 4096) = 4096 :=
    if_neg (by omega)
  rw [offersToString, hsize, appends_offers os ⟨hdr, 4096⟩ rfl h]
  rfl

theorem length_writeValues_eq (vs : List OfferValue) :
    (writeValues vs).length = (vs.map fun v => v.szVal.length + 1).sum - 1 := by
  induction vs with
  | nil => rfl
  | cons v vs ih =>
    cases vs with
    | nil => rfl
    | cons w vs =>
      rw [writeValues, List.length_append, List.length_cons, ih]
      simp only [List.map_cons, List.sum_cons]
      omega

theorem length_writeOffers_eq (os : Offers) :
    (writeOffers os).length = (os.map fun o => o.write.length + 1).sum - 1 := by
  induction os with
  | nil => rfl
  | cons o os ih =>
    cases os with
    | nil => rfl
    | cons p os =>
      rw [writeOffers, List.length_append, List.length_cons, ih]
      simp only [List.map_cons, List.sum_cons]
      omega

theorem length_write_flip (o : Offer) : o.flip.write.length = o.write.length := by
  have hvalues : (writeValues o.values.reverse).length = (writeValues o.values).length := by
    rw [length_writeValues_eq, length_writeValues_eq, List.map_reverse, List.sum_reverse]
  rw [Offer.write, Offer.write, List.length_append, List.length_append, List.length_cons,
    List.length_cons]
  change _ + ((writeValues o.values.reverse).length + 1) = _
  rw [hvalues]
  rfl

theorem length_writeOffers_flip (os : Offers) :
    (writeOffers (os.map Offer.flip).reverse).length = (writeOffers os).length := by
  rw [length_writeOffers_eq, length_writeOffers_eq, List.map_reverse, List.sum_reverse,
    List.map_map]
  simp only [Function.comp_def, length_write_flip]

/-- Offers that one side has written come to the other one with all that they say, but in the
other order, that of the offers and that of the values; written and read again, they are as they
were.  The text has to leave three octets of the first memory. -/
theorem offers_roundTrip {hdr : Octets} {os : Offers} (hos : ∀ o ∈ os, o.Plain)
    (hfit : hdr.length + (writeOffers os).length + 3 ≤ 4096) :
    ∃ s s', offersToString hdr os = some (hdr ++ s) ∧
      readOffers s = (os.map Offer.flip).reverse ∧
      offersToString hdr (readOffers s) = some (hdr ++ s') ∧ readOffers s' = os := by
  have hread := readOffers_writeOffers hos
  have hplain : ∀ o ∈ (os.map Offer.flip).reverse, o.Plain := by
    intro o ho
    obtain ⟨p, hp, rfl⟩ := List.mem_map.mp (List.mem_reverse.mp ho)
    exact (hos p hp).flip
  have hback : hdr.length + (writeOffers (os.map Offer.flip).reverse).length + 3 ≤ 4096 := by
    rw [length_writeOffers_flip]
    exact hfit
  refine ⟨_, writeOffers (os.map Offer.flip).reverse, offersToString_ok hfit, hread, ?_, ?_⟩
  · rw [hread]
    exact offersToString_ok hback
  · rw [readOffers_writeOffers hplain, List.map_reverse, List.reverse_reverse, List.map_map]
    exact (List.map_congr_left fun o _ => flip_flip o).trans (List.map_id os)

def clientOffers : Offers :=
  [(newOffer (octets "relp_version")).addInt 0,
    ((newOffer (octets "relp_software")).addValue (octets "1.2.16")).addValue (octets "librelp"),
    (newOffer (octets "commands")).addValue (octets "syslog")]

def okHeader : Octets := octets "200 OK" ++ [newline]

theorem offers_roundTrip_client :
    ∃ s s', offersToString okHeader clientOffers = some (okHeader ++ s) ∧
      readOffers s = (clientOffers.map Offer.flip).reverse ∧
      offersToString okHeader (readOffers s) = some (okHeader ++ s') ∧
      readOffers s' = clientOffers := by
  have hnames : ∀ o ∈ clientOffers, (o.szName.all fun c => c ≠ 0 ∧ c ≠ equals) = true ∧
      o.szName.length ≤ maxFeatureName := by decide
  have hvalues : ∀ o ∈ clientOffers, ∀ v ∈ o.values, v.szVal ≠ [] ∧
      (v.szVal.all fun c => c ≠ 0 ∧ c ≠ comma ∧ c ≠ newline) = true ∧
      v.szVal.length ≤ maxFeatureValue ∧ v.intVal = intOf v.szVal ∧ v.intVal ≠ none := by decide
  refine offers_roundTrip (fun o ho => ⟨fun c hc => ?_, (hnames o ho).2, fun v hv => ?_⟩) (by decide)
  · exact of_decide_eq_true (List.all_eq_true.mp (hnames o ho).1 c hc)
  · obtain ⟨hnonempty, hplain, hlength, hint, hdefined⟩ := hvalues o ho v hv
    exact ⟨hnonempty, fun c hc => of_decide_eq_true (List.all_eq_true.mp hplain c hc), hlength,
      hint, hdefined⟩

end RoundTrip

end AggregatedLogging.Relp
