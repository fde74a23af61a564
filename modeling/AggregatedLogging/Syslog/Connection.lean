import AggregatedLogging.Syslog.Framing
import AggregatedLogging.Calls

/-! The socket of `syslog_buffered`, which all records and all retries share. -/
namespace AggregatedLogging.Syslog

open Ruby
open Calls (Call Triple run)

inductive Failure where
  | socketError
  | timeoutError
  | sslError
  | ioError
  | errno (name : Text)
  deriving DecidableEq

/-- The list of the two `rescue` clauses. -/
def rescuedFailures : List Failure :=
  [.socketError, .errno "ECONNREFUSED".toList, .errno "ECONNRESET".toList, .errno "EPIPE".toList,
    .timeoutError, .sslError]

def rescued (f : Failure) : Bool := rescuedFailures.contains f

/-- A socket is named by the place at which it was opened. -/
inductive Operation where
  | connect
  | setTimeout (socket : Nat)
  | write (socket : Nat) (line : Text)
  | flush (socket : Nat)
  deriving DecidableEq

structure Action where
  operation : Operation
  failure : Option Failure
  deriving DecidableEq

/-- What the system answers to each operation, and how many connects fit in the ten
seconds that begin there. -/
structure Network where
  answer : Nat → Option Failure
  patience : Nat → Nat

/-- `@socket`, and all that was done on sockets so far. -/
structure Connection where
  socket : Option Nat := none
  trace : List Action := []
  deriving DecidableEq

def Connection.did (c : Connection) (a : Action) : Connection := { c with trace := c.trace ++ [a] }

/-- A record that no packet can be made of, an operation that failed, or a `raise`
with nothing to raise again. -/
inductive Raised where
  | record (error : RubyError)
  | socket (failure : Failure)
  | runtimeError
  deriving DecidableEq

abbrev SocketCall (α : Type) := Call Connection Raised α

section Plugin

variable (net : Network)

def perform (operation : Operation) : SocketCall Unit := do
  let c ← get
  let failure := net.answer c.trace.length
  set (c.did ⟨operation, failure⟩)
  match failure with
  | none => return ()
  | some f => throw (.socket f)

/-- The first connect is tried again as long as the net is unreachable, for ten seconds. -/
def reachNet : Nat → SocketCall Unit
  | 0 => throw (.socket .timeoutError)
  | n + 1 => tryCatch (perform net .connect) fun e =>
    if e = .socket (.errno "ENETUNREACH".toList) then reachNet n else throw e

/-- The socket of the first connect is dropped, the second one is used. -/
def openSocket : SocketCall (Option Nat) := do
  reachNet net (net.patience (← get).trace.length)
  let socket := (← get).trace.length
  perform net .connect
  perform net (.setTimeout socket)
  return some socket

/-- The failures of the list are rescued, all others are raised again. -/
def isRescued : Raised → Bool
  | .socket f => rescued f
  | _ => false

def createTcpSocket : SocketCall (Option Nat) :=
  tryCatch (openSocket net) fun e => if isRescued e then return none else throw e

def setSocket (socket : Option Nat) : SocketCall Unit := do
  let c ← get
  set ({ c with socket := socket } : Connection)

def configure : SocketCall Unit := do
  setSocket (← createTcpSocket net)

def writeLine (socket : Nat) (line : Text) : SocketCall Unit :=
  tryCatch
    (do
      perform net (.write socket line)
      perform net (.flush socket))
    fun e =>
      if isRescued e then do
        setSocket none
        throw e
      else throw e

def reconnect : SocketCall Unit := do
  let c ← get
  if c.socket.isNone then setSocket (← createTcpSocket net) else return ()

/-- The end of `send_to_syslog`. -/
def transmit (line : Text) : SocketCall Unit := do
  reconnect net
  match (← get).socket with
  | some socket => writeLine net socket line
  | none => throw .runtimeError

variable (lib : Library τ) (cfg : Config)

def sendRecord (e : Event τ) : SocketCall Unit :=
  match sendToSyslog lib cfg e with
  | .error error => throw (.record error)
  | .ok packet => transmit net (lib.assemble packet ++ ['\n'])

def writeChunk (chunk : List (Event τ)) : SocketCall Unit := chunk.forM (sendRecord net lib cfg)

end Plugin

def Operation.sends : Operation → Option Nat
  | .write socket _ => some socket
  | .flush socket => some socket
  | _ => none

section Traces

def FailedOn (t : List Action) (n socket : Nat) : Prop :=
  ∃ operation f, t[n]? = some ⟨operation, some f⟩ ∧ operation.sends = some socket

def SendsTo (t : List Action) (n socket : Nat) : Prop :=
  ∃ a, t[n]? = some a ∧ a.operation.sends = some socket

def OpenedAt (t : List Action) (socket : Nat) : Prop := t[socket]? = some ⟨.connect, none⟩

def Recoverable (t : List Action) : Prop :=
  ∀ a ∈ t, a.operation.sends.isSome = true → a.failure.all rescued = true

/-- Behind a failure nothing is written on the socket that failed, but on one that was
opened since. -/
structure NeverReuses (t : List Action) : Prop where
  other : ∀ n m s s', FailedOn t n s → n < m → SendsTo t m s' → s' ≠ s
  reopened : ∀ n m s s', FailedOn t n s → n < m → SendsTo t m s' → n < s' ∧ OpenedAt t s'

structure Usable (t : List Action) (socket : Nat) : Prop where
  opened : OpenedAt t socket
  behind : ∀ n s, FailedOn t n s → n < socket

structure Sound (t : List Action) : Prop where
  opened : ∀ m s, SendsTo t m s → s < m ∧ OpenedAt t s
  behind : ∀ n m s s', FailedOn t n s → n < m → SendsTo t m s' → n < s'

variable {t : List Action} {a : Action} {n socket : Nat}

theorem FailedOn.sends (h : FailedOn t n socket) : SendsTo t n socket := by
  obtain ⟨operation, f, hget, hsends⟩ := h
  exact ⟨_, hget, hsends⟩

theorem SendsTo.lt (h : SendsTo t n socket) : n < t.length := by
  obtain ⟨a, hget, -⟩ := h
  exact (List.getElem?_eq_some_iff.mp hget).1

theorem getElem?_concat_eq_some {b : Action} :
    (t ++ [a])[n]? = some b ↔ t[n]? = some b ∨ n = t.length ∧ b = a := by
  rw [List.getElem?_append]
  by_cases hn : n < t.length
  · have hne : n ≠ t.length := by omega
    simp [hn, hne]
  · have hnone : t[n]? = none := List.getElem?_eq_none (by omega)
    rw [if_neg hn, hnone, List.getElem?_singleton]
    by_cases hlength : n = t.length
    · simp [hlength, eq_comm]
    · have hpos : n - t.length ≠ 0 := by omega
      simp [hlength, hpos]

theorem sendsTo_concat :
    SendsTo (t ++ [a]) n socket ↔
      SendsTo t n socket ∨ n = t.length ∧ a.operation.sends = some socket := by
  unfold SendsTo
  simp only [getElem?_concat_eq_some, or_and_right, exists_or, and_assoc]
  simp

theorem failedOn_concat :
    FailedOn (t ++ [a]) n socket ↔ FailedOn t n socket ∨
      n = t.length ∧ a.operation.sends = some socket ∧ a.failure.isSome = true := by
  unfold FailedOn
  simp only [getElem?_concat_eq_some, or_and_right, exists_or, and_assoc]
  refine or_congr_right ?_
  constructor
  · rintro ⟨operation, f, hn, rfl, hsends⟩
    exact ⟨hn, hsends, rfl⟩
  · rintro ⟨hn, hsends, hsome⟩
    obtain ⟨f, hf⟩ := Option.isSome_iff_exists.mp hsome
    exact ⟨a.operation, f, hn, by rw [← hf], hsends⟩

theorem OpenedAt.concat (h : OpenedAt t socket) : OpenedAt (t ++ [a]) socket :=
  getElem?_concat_eq_some.mpr (.inl h)

theorem Recoverable.of_concat (h : Recoverable (t ++ [a])) : Recoverable t :=
  fun b hb => h b (List.mem_append_left [a] hb)

theorem Sound.concat (h : Sound t) (ha : ∀ s, a.operation.sends = some s → Usable t s) :
    Sound (t ++ [a]) := by
  constructor
  · intro m s hm
    rcases sendsTo_concat.mp hm with hm | ⟨rfl, hsends⟩
    · exact ⟨(h.opened m s hm).1, (h.opened m s hm).2.concat⟩
    · have hopened := (ha s hsends).opened
      exact ⟨(List.getElem?_eq_some_iff.mp hopened).1, hopened.concat⟩
  · intro n m s s' hn hnm hm
    rcases sendsTo_concat.mp hm with hm | ⟨rfl, hsends⟩
    · rcases failedOn_concat.mp hn with hn | ⟨rfl, -⟩
      · exact h.behind n m s s' hn hnm hm
      · have hlt := hm.lt
        omega
    · rcases failedOn_concat.mp hn with hn | ⟨rfl, -⟩
      · exact (ha s' hsends).behind n s hn
      · omega

theorem Usable.concat (h : Usable t socket) (ha : a.operation.sends = none ∨ a.failure = none) :
    Usable (t ++ [a]) socket := by
  refine ⟨h.opened.concat, fun n s hn => ?_⟩
  rcases failedOn_concat.mp hn with hn | ⟨-, hsends, hfailure⟩
  · exact h.behind n s hn
  · rcases ha with ha | ha
    · rw [ha] at hsends
      contradiction
    · rw [ha] at hfailure
      contradiction

theorem usable_opened : Usable (t ++ [⟨.connect, none⟩]) t.length := by
  refine ⟨getElem?_concat_eq_some.mpr (.inr ⟨rfl, rfl⟩), fun n s hn => ?_⟩
  rcases failedOn_concat.mp hn with hn | ⟨-, hsends, -⟩
  · exact hn.sends.lt
  · contradiction

theorem Sound.neverReuses (h : Sound t) : NeverReuses t := by
  constructor
  · intro n m s s' hn hnm hm heq
    have hs := (h.opened n s hn.sends).1
    have hs' := h.behind n m s s' hn hnm hm
    omega
  · intro n m s s' hn hnm hm
    exact ⟨h.behind n m s s' hn hnm hm, (h.opened m s' hm).2⟩

end Traces

section Calls

variable {net : Network} {c : Connection}

/-- Between two calls: as long as nothing failed that is not in the list, the socket can
be used. -/
def Held (c : Connection) : Prop :=
  Recoverable c.trace → Sound c.trace ∧ ∀ s, c.socket = some s → Usable c.trace s

def Handed (r : Option Nat) (c : Connection) : Prop :=
  Held c ∧ ∀ s, r = some s → Recoverable c.trace → Usable c.trace s

theorem perform_triple {operation : Operation} {Q : Unit → Connection → Prop}
    {E : Raised → Connection → Prop}
    (hok : Q () (c.did ⟨operation, none⟩)) (herr : ∀ f, E (.socket f) (c.did ⟨operation, some f⟩)) :
    Triple (perform net operation) c Q E := by
  apply Triple.get_bind
  apply Triple.set_bind
  cases net.answer c.trace.length with
  | none => exact Triple.pure hok
  | some f => exact Triple.throw (herr f)

theorem Held.did {a : Action} (h : Held c)
    (ha : ∀ s, a.operation.sends = some s → Recoverable c.trace → Usable c.trace s)
    (hkeeps : a.operation.sends = none ∨ a.failure = none) : Held (c.did a) := by
  intro hrecoverable
  obtain ⟨hsound, hsocket⟩ := h hrecoverable.of_concat
  refine ⟨hsound.concat fun s hs => ha s hs hrecoverable.of_concat, ?_⟩
  intro s hs
  exact (hsocket s hs).concat hkeeps

theorem perform_connect (h : Held c) :
    Triple (perform net .connect) c
      (fun _ c' => Held c' ∧ c' = c.did ⟨.connect, none⟩) (fun _ => Held) := by
  apply perform_triple
  · exact ⟨h.did (by intro s hs; contradiction) (.inl rfl), rfl⟩
  · intro f
    exact h.did (by intro s hs; contradiction) (.inl rfl)

theorem reachNet_held (n : Nat) (h : Held c) :
    Triple (reachNet net n) c (fun _ => Held) (fun _ => Held) := by
  induction n generalizing c with
  | zero => exact Triple.throw h
  | succ n ih =>
    apply Triple.tryCatch
    · apply (perform_connect h).mono
      · intro _ c' h'
        exact h'.1
      · intro e c' h'
        exact h'
    · intro e c' h'
      split
      · exact ih h'
      · exact Triple.throw h'

theorem openSocket_handed (h : Held c) :
    Triple (openSocket net) c Handed (fun _ => Held) := by
  apply Triple.get_bind
  apply Triple.bind (reachNet_held _ h)
  intro _ c₁ h₁
  apply Triple.get_bind
  apply Triple.bind (perform_connect h₁)
  rintro _ _ ⟨h₂, rfl⟩
  have husable : Usable (c₁.did ⟨.connect, none⟩).trace c₁.trace.length := usable_opened
  apply Triple.bind (R := fun _ => Handed (some c₁.trace.length))
  · apply perform_triple
    · refine ⟨h₂.did (by intro s hs; contradiction) (.inl rfl), fun s hs _ => ?_⟩
      rw [← Option.some.inj hs]
      exact husable.concat (.inl rfl)
    · intro f
      exact h₂.did (by intro s hs; contradiction) (.inl rfl)
  · intro _ c' h'
    exact Triple.pure h'

theorem createTcpSocket_handed (h : Held c) :
    Triple (createTcpSocket net) c Handed (fun _ => Held) := by
  apply Triple.tryCatch (openSocket_handed h)
  intro e c' h'
  split
  · exact Triple.pure ⟨h', by simp⟩
  · exact Triple.throw h'

theorem setSocket_dropped (h : Recoverable c.trace → Sound c.trace)
    (E : Raised → Connection → Prop) :
    Triple (setSocket none) c (fun _ => Held) E := by
  apply Triple.get_bind
  apply Triple.pure (a := PUnit.unit)
  intro hrecoverable
  exact ⟨h hrecoverable, by simp⟩

theorem setSocket_held {r : Option Nat} (h : Handed r c) (E : Raised → Connection → Prop) :
    Triple (setSocket r) c (fun _ => Held) E := by
  apply Triple.get_bind
  apply Triple.pure (a := PUnit.unit)
  intro hrecoverable
  exact ⟨(h.1 hrecoverable).1, fun s hs => h.2 s hs hrecoverable⟩

theorem configure_held : Triple (configure net) {} (fun _ => Held) (fun _ => Held) := by
  apply Triple.bind (R := Handed)
  · apply createTcpSocket_handed
    intro _
    refine ⟨⟨?_, ?_⟩, by simp⟩
    · rintro m s ⟨a, hget, -⟩
      contradiction
    · rintro n m s s' ⟨operation, f, hget, -⟩
      contradiction
  · intro r c' h'
    exact setSocket_held h' _

/-- A write or flush that failed: the socket is dropped before anything else is done. -/
def Dropped (e : Raised) (c : Connection) : Prop :=
  (Recoverable c.trace → Sound c.trace) ∧ (isRescued e = false → ¬ Recoverable c.trace)

theorem perform_send {operation : Operation} {socket : Nat} (hsends : operation.sends = some socket)
    (h : Handed (some socket) c) :
    Triple (perform net operation) c (fun _ => Handed (some socket)) Dropped := by
  have husable : ∀ s, operation.sends = some s → Recoverable c.trace → Usable c.trace s := by
    intro s hs
    exact h.2 s (hsends.symm.trans hs)
  apply perform_triple
  · refine ⟨h.1.did husable (.inr rfl), fun s hs hrecoverable => ?_⟩
    exact (h.2 s hs hrecoverable.of_concat).concat (.inr rfl)
  · intro f
    constructor
    · intro hrecoverable
      obtain ⟨hsound, -⟩ := h.1 hrecoverable.of_concat
      exact hsound.concat fun s hs => husable s hs hrecoverable.of_concat
    · intro hnot hrecoverable
      have hrescued : rescued f = true :=
        hrecoverable ⟨operation, some f⟩ (List.mem_append_right _ List.mem_cons_self)
          (by rw [hsends]; rfl)
      rw [isRescued, hrescued] at hnot
      contradiction

theorem writeLine_held {socket : Nat} {line : Text} (h : Handed (some socket) c) :
    Triple (writeLine net socket line) c (fun _ => Held) (fun _ => Held) := by
  apply Triple.tryCatch (R := Dropped)
  · apply Triple.bind (perform_send rfl h)
    intro _ c' h'
    apply (perform_send rfl h').mono
    · intro _ c'' h''
      exact h''.1
    · intro e c'' h''
      exact h''
  · intro e c' h'
    split
    · apply Triple.bind (setSocket_dropped h'.1 _)
      intro _ c'' h''
      exact Triple.throw h''
    · rename_i hrescued
      apply Triple.throw
      intro hrecoverable
      exact absurd hrecoverable (h'.2 (Bool.not_eq_true _ ▸ hrescued))

theorem reconnect_held (h : Held c) :
    Triple (reconnect net) c (fun _ => Held) (fun _ => Held) := by
  apply Triple.get_bind
  split
  · apply Triple.bind (createTcpSocket_handed h)
    intro r c' h'
    exact setSocket_held h' _
  · exact Triple.pure h

theorem transmit_held {line : Text} (h : Held c) :
    Triple (transmit net line) c (fun _ => Held) (fun _ => Held) := by
  apply Triple.bind (reconnect_held h)
  intro _ c' h'
  apply Triple.get_bind
  cases hsocket : c'.socket with
  | none => exact Triple.throw h'
  | some socket =>
    apply writeLine_held
    refine ⟨h', fun s hs hrecoverable => (h' hrecoverable).2 s ?_⟩
    rw [hsocket, hs]

variable {lib : Library τ} {cfg : Config}

theorem sendRecord_held {e : Event τ} (h : Held c) :
    Triple (sendRecord net lib cfg e) c (fun _ => Held) (fun _ => Held) := by
  unfold sendRecord
  cases sendToSyslog lib cfg e with
  | error error => exact Triple.throw h
  | ok packet => exact transmit_held h

theorem writeChunk_held {chunk : List (Event τ)} (h : Held c) :
    Triple (writeChunk net lib cfg chunk) c (fun _ => Held) (fun _ => Held) :=
  Triple.forM (I := fun _ => Held) [] (fun _ _ _ => sendRecord_held) h

end Calls

def Action.line (a : Action) : Option Text :=
  match a.operation, a.failure with
  | .write _ line, none => some line
  | _, _ => none

def sentLines (t : List Action) : List Text := t.filterMap Action.line

section Delivery

variable {net : Network} {c : Connection}

theorem sentLines_did (a : Action) : sentLines (c.did a).trace = sentLines c.trace ++ a.line.toList := by
  unfold Connection.did sentLines
  rw [List.filterMap_append]
  cases h : a.line with
  | none => simp [h]
  | some line => simp [h]

def Unsent (c c' : Connection) : Prop := sentLines c'.trace = sentLines c.trace

def anyRaised : Raised → Connection → Prop := fun _ _ => True

theorem perform_line (operation : Operation) :
    Triple (perform net operation) c
      (fun _ c' => sentLines c'.trace = sentLines c.trace ++ (Action.line ⟨operation, none⟩).toList)
      (fun _ c' => Unsent c c') := by
  apply perform_triple
  · exact sentLines_did _
  · intro f
    have hline : Action.line ⟨operation, some f⟩ = none := by cases operation <;> rfl
    rw [Unsent, sentLines_did, hline]
    exact List.append_nil _

theorem perform_unsent {operation : Operation} (h : Action.line ⟨operation, none⟩ = none) :
    Triple (perform net operation) c (fun _ => Unsent c) (fun _ => Unsent c) := by
  apply (perform_line operation).mono
  · intro _ c' h'
    rw [h] at h'
    exact h'.trans (List.append_nil _)
  · intro e c' h'
    exact h'

theorem reachNet_unsent (n : Nat) :
    Triple (reachNet net n) c (fun _ => Unsent c) (fun _ => Unsent c) := by
  induction n generalizing c with
  | zero => exact Triple.throw rfl
  | succ n ih =>
    apply Triple.tryCatch (perform_unsent rfl)
    intro e c' h'
    split
    · apply ih.mono
      · intro _ c'' h''
        exact h''.trans h'
      · intro e c'' h''
        exact h''.trans h'
    · exact Triple.throw h'

theorem openSocket_unsent :
    Triple (openSocket net) c (fun _ => Unsent c) (fun _ => Unsent c) := by
  apply Triple.get_bind
  apply Triple.bind (reachNet_unsent _)
  intro _ c₁ h₁
  apply Triple.get_bind
  apply Triple.bind (R := fun _ => Unsent c)
  · apply (perform_unsent rfl).mono
    · intro _ c₂ h₂
      exact h₂.trans h₁
    · intro e c₂ h₂
      exact h₂.trans h₁
  · intro _ c₂ h₂
    apply Triple.bind (R := fun _ => Unsent c)
    · apply (perform_unsent rfl).mono
      · intro _ c₃ h₃
        exact h₃.trans h₂
      · intro e c₃ h₃
        exact h₃.trans h₂
    · intro _ c₃ h₃
      exact Triple.pure h₃

theorem reconnect_unsent : Triple (reconnect net) c (fun _ => Unsent c) anyRaised := by
  apply Triple.get_bind
  split
  · apply Triple.bind (R := fun _ => Unsent c)
    · apply Triple.tryCatch openSocket_unsent
      intro e c' h'
      split
      · exact Triple.pure h'
      · exact Triple.throw trivial
    · intro r c' h'
      exact Triple.get_bind (Triple.pure (a := PUnit.unit) h')
  · exact Triple.pure rfl

theorem transmit_sends (line : Text) :
    Triple (transmit net line) c
      (fun _ c' => sentLines c'.trace = sentLines c.trace ++ [line]) anyRaised := by
  apply Triple.bind reconnect_unsent
  intro _ c₁ h₁
  apply Triple.get_bind
  cases c₁.socket with
  | none => exact Triple.throw trivial
  | some socket =>
    apply Triple.tryCatch (R := anyRaised)
    · apply Triple.bind ((perform_line _).mono (fun _ _ h => h) fun _ _ _ => trivial)
      intro _ c₂ h₂
      apply (perform_line _).mono
      · intro _ c₃ h₃
        rw [h₃, h₂, h₁]
        exact List.append_nil _
      · intro e c₃ _
        trivial
    · intro e c' _
      split
      · apply Triple.bind (R := fun _ _ => True)
        · exact Triple.get_bind (Triple.pure (a := PUnit.unit) trivial)
        · intro _ _ _
          exact Triple.throw trivial
      · exact Triple.throw trivial

variable {lib : Library τ} {cfg : Config}

def Delivered (lib : Library τ) (cfg : Config) (c : Connection) (chunk : List (Event τ))
    (c' : Connection) : Prop :=
  ∃ sent, write lib cfg chunk = .ok sent ∧ sentLines c'.trace = sentLines c.trace ++ sent

theorem writeChunk_sends (chunk : List (Event τ)) :
    Triple (writeChunk net lib cfg chunk) c (fun _ => Delivered lib cfg c chunk) anyRaised := by
  apply Triple.forM (I := Delivered lib cfg c) []
  · rintro done e c' ⟨sent, hsent, hlines⟩
    unfold sendRecord
    cases hpacket : sendToSyslog lib cfg e with
    | error error => exact Triple.throw trivial
    | ok packet =>
      apply (transmit_sends _).mono
      · intro _ c'' h''
        refine ⟨sent ++ [lib.assemble packet ++ ['\n']], ?_, ?_⟩
        · rw [write] at hsent ⊢
          rw [List.mapM_append, hsent, List.mapM_cons, hpacket]
          rfl
        · rw [h'', hlines, List.append_assoc]
      · intro e c'' _
        trivial
  · exact ⟨[], rfl, (List.append_nil _).symm⟩

end Delivery

section Run

variable (net : Network) (lib : Library τ) (cfg : Config)

/-- Fluentd hands over chunks, new ones or the last one again, whatever the call has raised. -/
def writeAll (chunks : List (List (Event τ))) (c : Connection) : Connection :=
  chunks.foldl (fun c chunk => (run (writeChunk net lib cfg chunk) c).2) c

def Reached (chunks : List (List (Event τ))) (c : Connection) : Prop :=
  ∃ c₀, run (configure net) {} = (.ok (), c₀) ∧ writeAll net lib cfg chunks c₀ = c

structure SendsSafely (c : Connection) : Prop where
  neverReuses : NeverReuses c.trace
  sends : ∀ chunk, Triple (writeChunk net lib cfg chunk) c
    (fun _ => Delivered lib cfg c chunk) anyRaised

variable {net lib cfg}

theorem writeAll_held {chunks : List (List (Event τ))} {c : Connection} (h : Held c) :
    Held (writeAll net lib cfg chunks c) := by
  induction chunks generalizing c with
  | nil => exact h
  | cons chunk chunks ih =>
    apply ih
    exact Triple.state (writeChunk_held h)

/-- As long as every write and flush fails only in one of the ways that are rescued, no
broken socket is used again. -/
theorem reached_sendsSafely {chunks : List (List (Event τ))} {c : Connection}
    (hreached : Reached net lib cfg chunks c) (hrecoverable : Recoverable c.trace) :
    SendsSafely net lib cfg c := by
  obtain ⟨c₀, hconfigure, rfl⟩ := hreached
  have hheld : Held c₀ := by
    have hconfigured := @configure_held net
    unfold Triple at hconfigured
    rw [hconfigure] at hconfigured
    exact hconfigured
  constructor
  · exact ((writeAll_held hheld) hrecoverable).1.neverReuses
  · intro chunk
    exact writeChunk_sends chunk

end Run

def failingAt (n : Nat) (f : Failure) : Network where
  answer k := if k = n then some f else none
  patience _ := 1

def readyChunk : List (Event Timestamp) := [webEvent "ready".toList webFields]

theorem reached_sendsSafely_reset :
    SendsSafely (failingAt 3 (.errno "ECONNRESET".toList)) gem nodeConfig
      (writeAll (failingAt 3 (.errno "ECONNRESET".toList)) gem nodeConfig [readyChunk, readyChunk]
        (run (configure (failingAt 3 (.errno "ECONNRESET".toList))) {}).2) :=
  @reached_sendsSafely _ _ _ _ [readyChunk, readyChunk] _ ⟨_, rfl, rfl⟩
    (by unfold Recoverable; decide)

/-- The first write times out, and the chunk is written again on the same socket. -/
theorem reuses_timedOut :
    ∃ c, Reached (failingAt 3 (.errno "ETIMEDOUT".toList)) gem nodeConfig [readyChunk, readyChunk] c ∧
      ¬ NeverReuses c.trace := by
  refine ⟨_, ⟨_, rfl, rfl⟩, fun h => ?_⟩
  apply h.other 3 4 1 1
  · exact ⟨_, _, rfl, rfl⟩
  · decide
  · exact ⟨_, rfl, rfl⟩
  · rfl

end AggregatedLogging.Syslog
