import AggregatedLogging.Elasticsearch.DeletePayload

/-! What the script that removes index patterns does in all.  A reply comes back from the shell
unless a text in it has a blank; then Python is given its first word and raises. -/
namespace AggregatedLogging.Elasticsearch

open Calls
open CompactJson hiding run
open Shell hiding Value

section Replies

variable {ms : List (Text × Value)}

theorem splitsBlanks : SplitsBlanks fun ch => !isBlank ch := by
  constructor
  · rfl
  · intro ch h
    rw [Bool.not_eq_false'] at h
    simp only [isBlank, Bool.or_eq_true, decide_eq_true_eq] at h
    rw [isSpace]
    rcases h with (h | h) | h
    · rw [h]
      rfl
    · rw [h]
      rfl
    · rw [h]
      rfl

theorem dump_blank (v : Value) : (∀ ch ∈ dump v, isBlank ch = false) ↔ unbroken v = true := by
  rw [← dump_all splitsBlanks v, List.all_eq_true]
  apply forall_congr'
  intro ch
  rw [Bool.not_eq_true']

theorem dump_object_head (ms : List (Text × Value)) : (dump (.object ms)).head? = some '\x7b' := by
  cases ms with
  | nil => rfl
  | cons m ms => rfl

theorem dump_object_ne_nil (ms : List (Text × Value)) : dump (.object ms) ≠ [] := by
  intro h
  have hhead := dump_object_head ms
  rw [h] at hhead
  contradiction

theorem load_echo (h : unbroken (.object ms) = true) :
    load (echo (dump (.object ms))) = some (.object ms) := by
  rw [echo_unbroken ((dump_blank _).mpr h) (dump_object_ne_nil ms), load_dump]

theorem unquoted_dump (h : unbroken (.object ms) = true) :
    unquoted (dump (.object ms)) = dump (.object ms) :=
  unquoted_unbroken ((dump_blank _).mpr h) (dump_object_ne_nil ms)

theorem load_unquoted_broken (h : unbroken (.object ms) = false) :
    load (echo (unquoted (dump (.object ms)))) = none := by
  have hbroken : ∃ ch ∈ dump (.object ms), isBlank ch = true := by
    by_contra hnone
    have hall : ∀ ch ∈ dump (.object ms), isBlank ch = false := by
      intro ch hch
      rw [← Bool.not_eq_true]
      intro hblank
      exact hnone ⟨ch, hch, hblank⟩
    rw [(dump_blank _).mp hall] at h
    contradiction
  have hhead : ∀ ch, (dump (.object ms)).head? = some ch → isBlank ch = false := by
    intro ch hch
    rw [dump_object_head] at hch
    rw [← Option.some.inj hch]
    rfl
  obtain ⟨u, hu, hcut, hne, hword⟩ := unquoted_broken hhead hbroken
  rw [echo_unbroken hword hne]
  exact load_cut hcut hu

/-- What Python is given without quotes is the whole reply or makes it raise. -/
theorem python_unquoted {α : Type} {f : Value → Option α} {a : α}
    (h : python f (unquoted (dump (.object ms))) = .ok a) :
    unbroken (.object ms) = true ∧ f (.object ms) = some a := by
  cases hbroken : unbroken (.object ms) with
  | false =>
    rw [python, load_unquoted_broken hbroken] at h
    contradiction
  | true =>
    rw [python, unquoted_dump hbroken, load_echo hbroken, Option.bind_some] at h
    refine ⟨rfl, ?_⟩
    cases hf : f (.object ms) with
    | none =>
      rw [hf] at h
      contradiction
    | some b =>
      rw [hf] at h
      cases h
      rfl

theorem python_dump {α : Type} {f : Value → Option α} {a : α} (h : unbroken (.object ms) = true)
    (hf : f (.object ms) = some a) : python f (dump (.object ms)) = .ok a := by
  rw [python, load_echo h, Option.bind_some, hf]

theorem unbrokenItems_eq (vs : List Value) : unbrokenItems vs = vs.all unbroken := by
  induction vs with
  | nil => rfl
  | cons v vs ih => rw [unbrokenItems, ih, List.all_cons]

theorem unbroken_lookup {key : Text} {v : Value} (h : unbrokenMembers ms = true)
    (hv : ms.lookup key = some v) : unbroken v = true := by
  induction ms with
  | nil => contradiction
  | cons m ms ih =>
    cases m with
    | mk k w =>
      rw [unbrokenMembers, Bool.and_eq_true, Bool.and_eq_true] at h
      rw [List.lookup_cons] at hv
      split at hv
      · rw [← Option.some.inj hv]
        exact h.1.2
      · exact ih h.2 hv

theorem unbroken_field {v w : Value} {key : Text} (h : unbroken v = true)
    (hw : field v key = some w) : unbroken w = true := by
  cases v with
  | object ms => exact unbroken_lookup h hw
  | _ => contradiction

theorem getDeletePayload_unbroken {payload : Text} {hits : List Value}
    (h : getDeletePayload (unquoted (dump (.object ms))) = .ok (payload, hits)) :
    ∀ r ∈ hits, unbroken r = true := by
  obtain ⟨hunbroken, hf⟩ := python_unquoted h
  obtain ⟨outer, houter, hf⟩ := Option.bind_eq_some_iff.mp hf
  obtain ⟨list, hlist, hf⟩ := Option.bind_eq_some_iff.mp hf
  obtain ⟨items, hitems, hf⟩ := Option.bind_eq_some_iff.mp hf
  obtain ⟨text, -, hpair⟩ := Option.map_eq_some_iff.mp hf
  cases hpair
  have hinner := unbroken_field (unbroken_field hunbroken houter) hlist
  cases list with
  | array vs =>
    cases hitems
    rw [unbroken, unbrokenItems_eq, List.all_eq_true] at hinner
    exact hinner
  | _ => contradiction

end Replies

section Pages

variable {c : Cluster}

def Unbroken (c : Cluster) : Prop := ∀ doc ∈ c.docs, ' ' ∉ doc.id

theorem noBlank {s : Text} : (s.all fun ch => ch ≠ ' ') = true ↔ ' ' ∉ s := by
  rw [List.all_eq_true]
  constructor
  · intro h hmem
    exact of_decide_eq_true (h ' ' hmem) rfl
  · intro h ch hch
    apply decide_eq_true
    intro heq
    rw [heq] at hch
    exact h hch

theorem noBlank_of {q : Char → Bool} (hq : q ' ' = false) {s : Text} (h : s.all q = true) :
    (s.all fun ch => ch ≠ ' ') = true := by
  rw [noBlank]
  intro hmem
  rw [List.all_eq_true.mp h ' ' hmem] at hq
  contradiction

theorem unbroken_hit (doc : Doc) : unbroken (hit doc) = (doc.id.all fun ch => ch ≠ ' ') := by
  have hindex := noBlank_of (by decide) doc.plain
  have hkeys : unbroken (hit doc) = ((doc.index.all fun ch => ch ≠ ' ') &&
      (true && ((doc.id.all fun ch => ch ≠ ' ') && true))) := rfl
  rw [hkeys, hindex]
  simp

theorem mem_page {i : Nat} {doc : Doc} (h : doc ∈ c.page i) : doc ∈ c.docs :=
  List.mem_of_mem_drop (List.mem_of_mem_take h)

theorem unbroken_reply (h : Unbroken c) (i : Nat) : unbroken (.object (c.reply i)) = true := by
  have hscroll := noBlank_of (by decide) (c.plain i)
  have hhits : unbrokenItems ((c.page i).map hit) = true := by
    rw [unbrokenItems_eq, List.all_map, List.all_eq_true]
    intro doc hdoc
    rw [Function.comp_apply, unbroken_hit, noBlank]
    exact h doc (mem_page hdoc)
  have hkeys : unbroken (.object (c.reply i)) = (((c.scrollId i).all fun ch => ch ≠ ' ') &&
      ((unbrokenItems ((c.page i).map hit) && true) && true)) := rfl
  rw [hkeys, hscroll, hhits]
  rfl

theorem isScrollChar_ascii {s : Text} (h : s.all isScrollChar = true) :
    (s.all fun ch => ch.toNat < 128) = true := by
  rw [List.all_eq_true] at h ⊢
  intro ch hch
  have hscroll := h ch hch
  simp only [isScrollChar, isNameChar, Bool.or_eq_true, Bool.and_eq_true, decide_eq_true_eq,
    Char.le_def, UInt32.le_iff_toNat_le] at hscroll
  apply decide_eq_true
  have hcode : ch.toNat = ch.val.toNat := rfl
  rcases hscroll with ((((((h | h) | h) | h) | h) | h) | h) | h
  · have hlast : 'z'.val.toNat = 122 := rfl
    omega
  · have hlast : 'Z'.val.toNat = 90 := rfl
    omega
  · have hlast : '9'.val.toNat = 57 := rfl
    omega
  all_goals
    rw [h]
    decide

theorem getScrollId_reply (h : Unbroken c) (i : Nat) :
    getScrollId (dump (.object (c.reply i))) = .ok (c.scrollId i) := by
  apply python_dump (unbroken_reply h i)
  have hfield : field (.object (c.reply i)) scrollIdKey = some (.string (c.scrollId i)) := rfl
  rw [hfield, Option.bind_some, printed, if_pos (isScrollChar_ascii (c.plain i))]

theorem getHits_reply (h : Unbroken c) (i : Nat) :
    getHits (dump (.object (c.reply i))) = c.docs.length := by
  rw [getHits, load_echo (unbroken_reply h i)]
  rfl

theorem getDeletePayload_reply (h : Unbroken c) (i : Nat) :
    getDeletePayload (unquoted (dump (.object (c.reply i)))) =
      .ok (payloadOf (c.page i), (c.page i).map hit) := by
  rw [unquoted_dump (unbroken_reply h i)]
  apply python_dump (unbroken_reply h i)
  have hlines : (hitLines ((c.page i).map hit)).map substitution = some (payloadOf (c.page i)) :=
    hitLines_hits (c.page i)
  obtain ⟨payload, hpayload, hsubst⟩ := Option.map_eq_some_iff.mp hlines
  have hfields : ((field (.object (c.reply i)) hitsKey).bind fun hits =>
      (field hits hitsKey).bind fun list => (hitsOf list).bind fun hits =>
        (hitLines hits).map fun payload => (substitution payload, hits)) =
      (hitLines ((c.page i).map hit)).map fun payload =>
        (substitution payload, (c.page i).map hit) := rfl
  rw [hfields, hpayload, Option.map_some, hsubst]

end Pages

section Bulk

theorem getErrors_bulkReply {keys : List (Text × Text)}
    (h : ∀ key ∈ keys, unbroken (item key) = true) :
    getErrors (unquoted (dump (.object (bulkReply keys)))) = .ok "False".toList := by
  have hunbroken : unbroken (.object (bulkReply keys)) = true := by
    have hitems : unbrokenItems (keys.map item) = true := by
      rw [unbrokenItems_eq, List.all_map, List.all_eq_true]
      exact h
    have hkeys : unbroken (.object (bulkReply keys)) =
        (unbrokenItems (keys.map item) && true) := rfl
    rw [hkeys, hitems]
    rfl
  rw [unquoted_dump hunbroken]
  exact python_dump hunbroken rfl

theorem getErrors_errorReply :
    getErrors (unquoted (dump (.object errorReply))) ≠ .ok "False".toList := by
  intro h
  have hbroken : unbroken (.object errorReply) = false := rfl
  rw [(python_unquoted h).1] at hbroken
  contradiction

theorem unbroken_item {doc : Doc} (h : ' ' ∉ doc.id) : unbroken (item doc.key) = true := by
  have hindex := noBlank_of (by decide) doc.plain
  have hkeys : unbroken (item doc.key) = (((doc.index.all fun ch => ch ≠ ' ') &&
      (true && ((doc.id.all fun ch => ch ≠ ' ') && true))) && true) := rfl
  rw [hkeys, hindex, noBlank.mpr h]
  rfl

def ofProjects (docs : List Doc) : List (Text × Text) :=
  (docs.filter fun doc => namesProject doc.id).map Doc.key

theorem matched_eq {docs : List Doc} (h : ∀ doc ∈ matched docs, '\n' ∉ doc.id) :
    (matched docs).map Doc.key = ofProjects docs := by
  rw [ofProjects, matched]
  apply congrArg
  apply List.filter_congr
  intro doc hdoc
  apply isProjectPattern_eq
  intro hmatch
  exact h doc (List.mem_filter.mpr ⟨hdoc, hmatch⟩)

/-- A page is removed, or a line break in an id makes one more failure. -/
theorem remove_payloadOf (w : World) {docs : List Doc} (hdocs : ∀ doc ∈ docs, ' ' ∉ doc.id) :
    (∃ response success, w.remove (payloadOf docs) =
        { w with deleted := w.deleted ++ ofProjects docs, response := response,
                 success := success }) ∨
      (∃ doc ∈ docs, '\n' ∈ doc.id) ∧ ∃ response, w.remove (payloadOf docs) =
        { w with response := response, failures := w.failures + 1 } := by
  by_cases hnone : matched docs = []
  · have hdeleted : w.deleted ++ ofProjects docs = w.deleted := by
      have hmatched := @matched_eq docs (by rw [hnone]; exact List.forall_mem_nil _)
      rw [← hmatched, hnone, List.map_nil, List.append_nil]
    rw [payloadOf, if_pos hnone, hdeleted]
    exact .inl ⟨w.response, w.success, rfl⟩
  · have hpayload : requestLines (matched docs) ++ [' '] ≠ [] := by simp
    have hprojects : ∀ doc ∈ matched docs, isProjectPattern doc.id = true := by
      intro doc hdoc
      exact (List.mem_filter.mp hdoc).2
    rw [payloadOf, if_neg hnone, World.remove, if_neg hpayload, World.bulk]
    cases hactions : bulkActions (requestLines (matched docs) ++ [' ']) with
    | none =>
      refine .inr ⟨?_, dump (.object errorReply), if_neg getErrors_errorReply⟩
      by_contra hbreaks
      have hread := (bulkActions_requestLines hprojects).mpr ⟨rfl, fun doc hdoc hbreak =>
        hbreaks ⟨doc, (List.mem_filter.mp hdoc).1, hbreak⟩⟩
      rw [hactions] at hread
      contradiction
    | some keys =>
      obtain ⟨hkeys, hbreaks⟩ := (bulkActions_requestLines hprojects).mp hactions
      have hitems : ∀ key ∈ keys, unbroken (item key) = true := by
        intro key hkey
        rw [hkeys] at hkey
        obtain ⟨doc, hdoc, heq⟩ := List.mem_map.mp hkey
        rw [← heq]
        exact unbroken_item (hdocs doc (List.mem_filter.mp hdoc).1)
      rw [matched_eq hbreaks] at hkeys
      refine .inl ⟨dump (.object (bulkReply keys)), w.success + 1, ?_⟩
      rw [← hkeys]
      exact if_pos (getErrors_bulkReply hitems)

end Bulk

section Loop

variable {c : Cluster} {k : Nat} {w : World}

def Cluster.before (c : Cluster) (k : Nat) : List Doc := c.docs.take (size * k)

theorem before_succ (c : Cluster) (k : Nat) : c.before (k + 1) = c.before k ++ c.page k := by
  rw [Cluster.before, Cluster.before, Cluster.page, Nat.mul_succ, List.take_add]

structure At (c : Cluster) (k : Nat) (w : World) : Prop where
  counter : w.counter = k
  pages : w.pages = k + 1
  response : w.response = dump (.object (c.reply k))
  evaluated : w.evaluated = (c.before k).map hit
  received : w.received = (List.range (k + 1)).map c.scrollId
  scrollIds : w.scrollIds = (List.range k).map c.scrollId
  released : w.released = []
  deleted : w.failures = 0 → w.deleted = ofProjects (c.before k)
  failed : w.failures ≠ 0 → ∃ doc ∈ c.docs, '\n' ∈ doc.id

theorem words_scrollId (c : Cluster) (k : Nat) : words (c.scrollId k) = [c.scrollId k] := by
  apply words_unbroken _ (c.nonempty k)
  intro ch hch
  have hscroll := List.all_eq_true.mp (c.plain k) ch hch
  rw [← Bool.not_eq_true]
  intro hblank
  simp only [isBlank, Bool.or_eq_true, decide_eq_true_eq] at hblank
  rcases hblank with (h | h) | h
  all_goals
    rw [h] at hscroll
    contradiction

theorem scroll_next (hpages : w.pages = k + 1) :
    w.scroll c (c.scrollId k) = w.handOut c := by
  rw [World.scroll, if_pos]
  rw [hpages]
  exact ⟨Nat.succ_pos k, rfl⟩

theorem ofProjects_append (docs more : List Doc) :
    ofProjects (docs ++ more) = ofProjects docs ++ ofProjects more := by
  rw [ofProjects, List.filter_append, List.map_append]
  rfl

/-- What the body of the loop does when Python raises nowhere. -/
def World.fetched (c : Cluster) (scrollId payload : Text) (hits : List Value) (w : World) : World :=
  let w := { w with
    scrollIds := w.scrollIds ++ words scrollId
    evaluated := w.evaluated ++ hits }
  let w := w.remove payload
  World.scroll c scrollId { w with counter := w.counter + 1 }

theorem fetchPage_ok {scrollId payload : Text} {hits : List Value}
    (hscroll : getScrollId w.response = .ok scrollId)
    (hpayload : getDeletePayload (unquoted w.response) = .ok (payload, hits)) :
    run (fetchPage c) w = (.ok ⟨⟩, w.fetched c scrollId payload hits) := by
  change run (yields (getScrollId w.response) >>= _) w = _
  rw [hscroll]
  change run (yields (getDeletePayload (unquoted w.response)) >>= _) w = _
  rw [hpayload]
  rfl

theorem fetchPage_cases (c : Cluster) (w : World) :
    (∃ n, run (fetchPage c) w = (.error n, w)) ∨
      ∃ scrollId payload hits, getDeletePayload (unquoted w.response) = .ok (payload, hits) ∧
        run (fetchPage c) w = (.ok ⟨⟩, w.fetched c scrollId payload hits) := by
  cases hscroll : getScrollId w.response with
  | error n =>
    refine .inl ⟨n, ?_⟩
    change run (yields (getScrollId w.response) >>= _) w = _
    rw [hscroll]
    rfl
  | ok scrollId =>
    cases hpayload : getDeletePayload (unquoted w.response) with
    | error n =>
      refine .inl ⟨n, ?_⟩
      change run (yields (getScrollId w.response) >>= _) w = _
      rw [hscroll]
      change run (yields (getDeletePayload (unquoted w.response)) >>= _) w = _
      rw [hpayload]
      rfl
    | ok p => exact .inr ⟨scrollId, p.1, p.2, rfl, fetchPage_ok hscroll hpayload⟩

theorem map_range_succ (c : Cluster) (m : Nat) :
    (List.range (m + 1)).map c.scrollId = (List.range m).map c.scrollId ++ [c.scrollId m] := by
  rw [List.range_succ, List.map_append]
  rfl

theorem fetched_at (h : Unbroken c) (hw : At c k w) :
    At c (k + 1) (w.fetched c (c.scrollId k) (payloadOf (c.page k)) ((c.page k).map hit)) := by
  have hevaluated : w.evaluated ++ (c.page k).map hit = (c.before (k + 1)).map hit := by
    rw [hw.evaluated, before_succ, List.map_append]
  have hscrollIds : w.scrollIds ++ words (c.scrollId k) =
      (List.range (k + 1)).map c.scrollId := by
    rw [hw.scrollIds, words_scrollId, map_range_succ]
  have hreceived : w.received ++ [c.scrollId w.pages] =
      (List.range (k + 2)).map c.scrollId := by
    rw [hw.received, hw.pages, map_range_succ c (k + 1)]
  have hresponse : dump (.object (c.reply w.pages)) = dump (.object (c.reply (k + 1))) := by
    rw [hw.pages]
  obtain ⟨response, success, hremove⟩ | ⟨⟨doc, hdoc, hbreak⟩, response, hremove⟩ := remove_payloadOf
    { w with
      scrollIds := w.scrollIds ++ words (c.scrollId k)
      evaluated := w.evaluated ++ (c.page k).map hit }
    fun doc hdoc => h doc (@mem_page c k doc hdoc)
  · rw [World.fetched, hremove, scroll_next]
    · refine ⟨congrArg Nat.succ hw.counter, congrArg Nat.succ hw.pages, hresponse, hevaluated,
        hreceived, hscrollIds, hw.released, ?_, hw.failed⟩
      intro hfailures
      change w.deleted ++ ofProjects (c.page k) = _
      rw [hw.deleted hfailures, before_succ, ofProjects_append]
    · exact hw.pages
  · rw [World.fetched, hremove, scroll_next]
    · refine ⟨congrArg Nat.succ hw.counter, congrArg Nat.succ hw.pages, hresponse, hevaluated,
        hreceived, hscrollIds, hw.released, ?_, fun _ => ⟨doc, mem_page hdoc, hbreak⟩⟩
      intro hfailures
      exact absurd hfailures (Nat.succ_ne_zero _)
    · exact hw.pages

theorem fetchPage_at (h : Unbroken c) (hw : At c k w) :
    Triple (fetchPage c) w (fun _ u => At c (k + 1) u) fun _ _ => False := by
  have hscroll : getScrollId w.response = .ok (c.scrollId k) := by
    rw [hw.response, getScrollId_reply h]
  have hpayload : getDeletePayload (unquoted w.response) =
      .ok (payloadOf (c.page k), (c.page k).map hit) := by
    rw [hw.response, getDeletePayload_reply h]
  rw [Triple, fetchPage_ok hscroll hpayload]
  exact fetched_at h hw

end Loop

section Runs

variable {c : Cluster} {n : Nat}

/-- The rounds of the loop; the last page is shorter than a full one. -/
def Cluster.rounds (c : Cluster) : Nat := c.docs.length / size + 1

theorem totalFetches_eq (c : Cluster) : totalFetches c.docs.length = c.rounds := by
  rw [totalFetches, Cluster.rounds, ← Int.ofNat_tdiv]
  rfl

theorem before_rounds (c : Cluster) : c.before c.rounds = c.docs := by
  apply List.take_of_length_le
  have hlt := Nat.lt_mul_div_succ c.docs.length (Nat.succ_pos 99)
  exact Nat.le_of_lt hlt

structure Done (c : Cluster) (w : World) : Prop where
  evaluated : w.evaluated = c.docs.map hit
  received : w.received = (List.range (c.rounds + 1)).map c.scrollId
  released : w.released = (List.range c.rounds).map c.scrollId
  deleted : w.failures = 0 → w.deleted = ofProjects c.docs

theorem release_all (w : World) (sids : List Text) :
    sids.foldl (fun w sid => w.release sid) w = { w with released := w.released ++ sids } := by
  induction sids generalizing w with
  | nil =>
    rw [List.append_nil]
    rfl
  | cons sid sids ih =>
    rw [List.foldl_cons, ih, List.append_cons]
    rfl

theorem At.done {w : World} (h : At c c.rounds w) :
    Done c (w.scrollIds.foldl (fun w sid => w.release sid) w) := by
  have hreleased : w.released ++ w.scrollIds = (List.range c.rounds).map c.scrollId := by
    rw [h.released, h.scrollIds]
    rfl
  rw [release_all]
  refine ⟨?_, h.received, hreleased, ?_⟩
  · change w.evaluated = _
    rw [h.evaluated, before_rounds]
  · intro hfailures
    rw [← before_rounds c]
    exact h.deleted hfailures

theorem at_handOut (c : Cluster) : At c 0 (World.handOut c {}) :=
  ⟨rfl, rfl, rfl, rfl, rfl, rfl, rfl, fun _ => rfl, fun hfailed => absurd rfl hfailed⟩

theorem removeIndexPatterns_done (h : Unbroken c) (hne : c.docs ≠ []) (n : Nat) :
    Triple (removeIndexPatterns c n) {}
      (fun ended w => (ended = true → Done c w) ∧ (c.rounds < n → ended = true) ∧
        (w.failures ≠ 0 → ∃ doc ∈ c.docs, '\n' ∈ doc.id))
      fun _ _ => False := by
  have hhits : getHits (World.handOut c {}).response = c.docs.length := getHits_reply h 0
  have hsome : (c.docs.length : Int) ≠ 0 := by
    intro hzero
    exact hne (List.length_eq_zero_iff.mp (Int.ofNat_eq_zero.mp hzero))
  apply Triple.get_bind
  dsimp only
  rw [hhits, if_neg hsome, totalFetches_eq]
  apply Triple.set_bind
  have hloop := @Triple.whileLoop World (World.handOut c {}) (fun _ _ => False)
    (fun w => decide ((w.counter : Int) < c.rounds)) (fetchPage c)
    (fun w => At c w.counter w ∧ w.counter ≤ c.rounds) (fun w => c.rounds - w.counter)
    ?_ n ⟨at_handOut c, Nat.zero_le _⟩
  · apply Triple.bind hloop
    intro ended w hw
    cases ended with
    | false => exact ⟨fun hended => Bool.noConfusion hended, hw.2.2, hw.1.1.failed⟩
    | true =>
      have hend : c.rounds ≤ w.counter := by
        have hcond := of_decide_eq_false (hw.2.1 rfl)
        omega
      have hcounter : w.counter = c.rounds := Nat.le_antisymm hw.1.2 hend
      have hat := hw.1.1
      rw [hcounter] at hat
      refine ⟨fun _ => hat.done, fun _ => rfl, ?_⟩
      rw [release_all]
      exact hat.failed
  · intro t ht hcond
    have hlt : t.counter < c.rounds := by
      have hcond := of_decide_eq_true hcond
      omega
    apply Triple.mono (fetchPage_at h ht.1)
    · intro _ u hu
      have hcounter : u.counter = t.counter + 1 := hu.counter
      rw [hcounter]
      exact ⟨⟨hu, hlt⟩, by omega⟩
    · intro _ _ hfalse
      exact hfalse

theorem removeIndexPatterns_nil (hnil : c.docs = []) (n : Nat) :
    Triple (removeIndexPatterns c n) {}
      (fun _ w => w.received = [c.scrollId 0] ∧ w.released = []) fun _ _ => False := by
  have hunbroken : Unbroken c := by
    intro doc hdoc
    rw [hnil] at hdoc
    contradiction
  have hhits : getHits (World.handOut c {}).response = 0 := by
    have hreply := getHits_reply hunbroken 0
    rw [hnil] at hreply
    exact hreply
  apply Triple.get_bind
  dsimp only
  rw [hhits, if_pos rfl]
  apply Triple.set_bind
  have hloop := @Triple.whileLoop World { World.handOut c {} with counter := 1 } (fun _ _ => False)
    (fun w => decide ((w.counter : Int) < totalFetches 0)) (fetchPage c)
    (fun w => w = { World.handOut c {} with counter := 1 }) (fun _ => 0) ?_ n rfl
  · apply Triple.bind hloop
    intro ended w hw
    rw [hw.1]
    cases ended with
    | false => exact ⟨rfl, rfl⟩
    | true => exact ⟨rfl, rfl⟩
  · intro t ht hcond
    rw [ht] at hcond
    contradiction

end Runs

section Looked

variable {c : Cluster} {w : World}

/-- Whatever the ids are, the reply at hand is a document, and nothing that Python has looked at
has a blank. -/
structure Looked (w : World) : Prop where
  response : ∃ ms, w.response = dump (.object ms)
  evaluated : ∀ r ∈ w.evaluated, unbroken r = true

theorem remove_frame (w : World) (payload : Text) :
    (w.remove payload).evaluated = w.evaluated ∧ (w.remove payload).counter = w.counter := by
  rw [World.remove]
  split
  · exact ⟨rfl, rfl⟩
  · rw [World.count, World.bulk]
    split
    · split
      · exact ⟨rfl, rfl⟩
      · exact ⟨rfl, rfl⟩
    · split
      · exact ⟨rfl, rfl⟩
      · exact ⟨rfl, rfl⟩

theorem scroll_frame (c : Cluster) (w : World) (sid : Text) :
    (w.scroll c sid).evaluated = w.evaluated ∧ (w.scroll c sid).counter = w.counter ∧
      ∃ ms, (w.scroll c sid).response = dump (.object ms) := by
  rw [World.scroll]
  split
  · exact ⟨rfl, rfl, _, rfl⟩
  · exact ⟨rfl, rfl, _, rfl⟩

theorem fetchPage_looked (hw : Looked w) :
    Triple (fetchPage c) w (fun _ u => Looked u ∧ u.counter = w.counter + 1) fun _ => Looked := by
  rw [Triple]
  obtain ⟨n, hrun⟩ | ⟨sid, payload, hits, hpayload, hrun⟩ := fetchPage_cases c w
  · rw [hrun]
    exact hw
  · obtain ⟨ms, hms⟩ := hw.response
    rw [hms] at hpayload
    have hhits := getDeletePayload_unbroken hpayload
    rw [hrun, World.fetched]
    change Looked (World.scroll c sid _) ∧ (World.scroll c sid _).counter = _
    obtain ⟨hevaluated, hcounter, hresponse⟩ := scroll_frame c _ sid
    rw [hcounter]
    refine ⟨⟨hresponse, ?_⟩, congrArg Nat.succ (remove_frame _ payload).2⟩
    rw [hevaluated]
    change ∀ r ∈ (World.remove payload _).evaluated, unbroken r = true
    rw [(remove_frame _ payload).1, List.forall_mem_append]
    exact ⟨hw.evaluated, hhits⟩

theorem removeIndexPatterns_looked (c : Cluster) (n : Nat) :
    Triple (removeIndexPatterns c n) {} (fun _ => Looked) fun _ => Looked := by
  have hstart : Looked (World.handOut c {}) := ⟨⟨_, rfl⟩, List.forall_mem_nil _⟩
  apply Triple.get_bind
  dsimp only
  generalize getHits (World.handOut c {}).response = totHits
  apply Triple.set_bind
  have hinit : Looked (if totHits = 0 then { World.handOut c {} with counter := 1 }
      else World.handOut c {}) := by
    split
    · exact ⟨hstart.response, hstart.evaluated⟩
    · exact hstart
  have hloop := @Triple.whileLoop World _ (fun _ => Looked)
    (fun w => decide ((w.counter : Int) < totalFetches totHits)) (fetchPage c)
    Looked (fun w => (totalFetches totHits - w.counter).toNat) ?_ n hinit
  · apply Triple.bind hloop
    intro ended w hw
    cases ended with
    | false => exact hw.1
    | true =>
      change Looked (w.scrollIds.foldl (fun w sid => w.release sid) w)
      rw [release_all]
      exact ⟨hw.1.response, hw.1.evaluated⟩
  · intro t ht hcond
    have hlt := of_decide_eq_true hcond
    apply Triple.mono (fetchPage_looked ht)
    · intro _ u hu
      refine ⟨hu.1, ?_⟩
      rw [hu.2]
      omega
    · intro _ _ hlooked
      exact hlooked

theorem unbroken_of_looked (hw : Looked w) (h : w.evaluated = c.docs.map hit) : Unbroken c := by
  intro doc hdoc
  have hmem : hit doc ∈ w.evaluated := by
    rw [h]
    exact List.mem_map_of_mem hdoc
  rw [← noBlank, ← unbroken_hit]
  exact hw.evaluated _ hmem

/-- Behind a blank on the first page nothing is removed. -/
theorem removeIndexPatterns_broken (h : unbroken (.object (c.reply 0)) = false) (n : Nat) :
    Triple (removeIndexPatterns c n) {} (fun _ w => w.failures = 0 ∧ w.deleted = [])
      fun _ w => w.failures = 0 ∧ w.deleted = [] := by
  let first (w : World) : Prop :=
    w.response = dump (.object (c.reply 0)) ∧ w.failures = 0 ∧ w.deleted = []
  apply Triple.get_bind
  dsimp only
  generalize getHits (World.handOut c {}).response = totHits
  apply Triple.set_bind
  have hinit : first (if totHits = 0 then { World.handOut c {} with counter := 1 }
      else World.handOut c {}) := by
    split
    · exact ⟨rfl, rfl, rfl⟩
    · exact ⟨rfl, rfl, rfl⟩
  have hloop := @Triple.whileLoop World _ (fun _ => first)
    (fun w => decide ((w.counter : Int) < totalFetches totHits)) (fetchPage c) first
    (fun _ => 0) ?_ n hinit
  · apply Triple.mono (Triple.bind hloop ?_)
    · intro _ w hw
      exact hw
    · intro _ w hw
      exact hw.2
    · intro ended w hw
      cases ended with
      | false => exact hw.1.2
      | true =>
        change (fun w : World => w.failures = 0 ∧ w.deleted = [])
          (w.scrollIds.foldl (fun w sid => w.release sid) w)
        rw [release_all]
        exact hw.1.2
  · intro t ht _
    rw [Triple]
    obtain ⟨m, hrun⟩ | ⟨sid, payload, hits, hpayload, -⟩ := fetchPage_cases c t
    · rw [hrun]
      exact ht
    · rw [ht.1] at hpayload
      rw [(python_unquoted hpayload).1] at h
      contradiction

end Looked

section Outcome

variable {c : Cluster}

theorem cleans_of_cleanable (h : BulksSucceed c) (hc : Cleanable c) : Cleans c := by
  obtain ⟨ended, w, hrun, hdone, hended, -⟩ :=
    (removeIndexPatterns_done hc.unbroken hc.nonempty (c.rounds + 1)).returns
  have hends := hended (Nat.lt_succ_self _)
  subst hends
  have hw := hdone rfl
  have hfailures : w.failures = 0 := by
    have hbulks := h (c.rounds + 1)
    rw [hrun] at hbulks
    exact hbulks
  refine ⟨c.rounds + 1, w, hrun, hw.evaluated, hw.deleted hfailures, ?_⟩
  intro sid hsid
  rw [hw.received, map_range_succ, List.mem_append, List.mem_singleton] at hsid
  rw [hw.released]
  rcases hsid with hsid | hsid
  · exact hsid
  · obtain ⟨i, hi, heq⟩ := hc.repeated
    have hmem := List.mem_map_of_mem (f := c.scrollId) (List.mem_range.mpr hi)
    rw [heq] at hmem
    rw [hsid]
    exact hmem

theorem cleanable_of_cleans (h : Cleans c) : Cleanable c := by
  obtain ⟨n, w, hrun, hclean⟩ := h
  have hunbroken : Unbroken c := by
    have hlooked := (removeIndexPatterns_looked c n).state
    rw [hrun] at hlooked
    exact unbroken_of_looked hlooked hclean.evaluated
  have hne : c.docs ≠ [] := by
    intro hnil
    have hempty := removeIndexPatterns_nil hnil n
    rw [Triple, hrun] at hempty
    have hmem := hclean.released (c.scrollId 0)
    rw [hempty.1, hempty.2] at hmem
    exact List.not_mem_nil (hmem List.mem_cons_self)
  have hdone := removeIndexPatterns_done hunbroken hne n
  rw [Triple, hrun] at hdone
  have hw := hdone.1 rfl
  have hlast : c.scrollId c.rounds ∈ w.released := by
    apply hclean.released
    rw [hw.received]
    exact List.mem_map_of_mem (List.mem_range.mpr (Nat.lt_succ_self _))
  rw [hw.released] at hlast
  obtain ⟨i, hi, heq⟩ := List.mem_map.mp hlast
  exact ⟨hne, hunbroken, i, List.mem_range.mp hi, heq⟩

theorem bulksSucceed (h : Unbroken c) (hne : c.docs ≠ [])
    (hbreaks : ∀ doc ∈ c.docs, '\n' ∉ doc.id) : BulksSucceed c := by
  intro n
  obtain ⟨ended, w, hrun, -, -, hfailed⟩ := (removeIndexPatterns_done h hne n).returns
  rw [hrun]
  by_contra hfailures
  obtain ⟨doc, hdoc, hbreak⟩ := hfailed hfailures
  exact hbreaks doc hdoc hbreak

/-- When no bulk request fails, the script cleans up exactly when there is something to look at,
no id has a blank, and the last scroll id is not a new one. -/
theorem cleans_iff (h : BulksSucceed c) : Cleans c ↔ Cleanable c :=
  ⟨cleanable_of_cleans, cleans_of_cleanable h⟩

def patterns : Cluster where
  docs := [⟨".kibana.user".toList, "project.web.*".toList, Eq.refl true⟩,
    ⟨".kibana.user".toList, "logstash-*".toList, Eq.refl true⟩]
  scrollId := fun _ => "DnF1ZXJ5VGhlbkZldGNo==".toList
  nonempty := fun _ => List.cons_ne_nil _ _
  plain := fun _ => Eq.refl true

theorem cleans_patterns : Cleans patterns := by
  have hblank : (patterns.docs.all fun doc => !doc.id.contains ' ') = true := rfl
  have hbreak : (patterns.docs.all fun doc => !doc.id.contains '\n') = true := rfl
  have habsent {ch : Char} (h : (patterns.docs.all fun doc => !doc.id.contains ch) = true) :
      ∀ doc ∈ patterns.docs, ch ∉ doc.id := by
    intro doc hdoc hmem
    have hall := List.all_eq_true.mp h doc hdoc
    rw [Bool.not_eq_true', List.contains_eq_mem, decide_eq_false_iff_not] at hall
    exact hall hmem
  have hne : patterns.docs ≠ [] := List.cons_ne_nil _ _
  exact (cleans_iff (bulksSucceed (habsent hblank) hne (habsent hbreak))).mpr
    ⟨hne, habsent hblank, 0, Nat.succ_pos _, rfl⟩

def typed : Cluster where
  docs := [⟨".kibana.user".toList, "my pattern".toList, Eq.refl true⟩]
  scrollId := fun _ => "DnF1ZXJ5VGhlbkZldGNo==".toList
  nonempty := fun _ => List.cons_ne_nil _ _
  plain := fun _ => Eq.refl true

theorem not_cleans_typed : BulksSucceed typed ∧ ¬ Cleans typed := by
  constructor
  · intro n
    have hbroken : unbroken (.object (typed.reply 0)) = false := rfl
    have hrun := removeIndexPatterns_broken hbroken n
    exact (Triple.state hrun).1
  · intro hcleans
    have hblank : ' ' ∈ "my pattern".toList := by decide
    exact (cleanable_of_cleans hcleans).unbroken _ List.mem_cons_self hblank

end Outcome

end AggregatedLogging.Elasticsearch
