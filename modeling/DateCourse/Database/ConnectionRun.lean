import DateCourse.Database.ConnectionSends
import Mathlib.Data.List.Nodup

/-!
# Runs of the connection

Whatever order the events come in, no assertion about the state of the connection fails, the counter
of unanswered listens agrees with the listens that are waiting for an answer, and a connection that
nobody has interrupted never stays disconnected without a retry being scheduled. Each event does for
puts what one operation on puts does.

## Main definitions

* `FPersistentConnection.Reconnects`: how a connection gets from one state to the next;
* `FPersistentConnection.Inv`: the invariant of all runs;
* `FPersistentConnection.op`: what an event does for puts.

## Main results

* `FPersistentConnection.step_spec`: a step keeps the invariant and does for puts what its operation
  does, and only two kinds of events trap;
* `FPersistentConnection.along_reconnects`: no run gets stuck.
-/

namespace Database

namespace FPersistentConnection

variable {Params Data Block : Type*} [FQueryParams Params]
  {c c' c'' : FPersistentConnection Params Data Block}

/-! ## The invariant -/

/-- A retry is scheduled in the disconnected state only, and always if nothing interrupts the
connection; and while a token is being fetched, its fetch is unanswered. -/
structure Reconnects (c : FPersistentConnection Params Data Block) : Prop where
  scheduled : c.retryHelper.scheduledRetry.isSome → c.connectionState = .disconnected
  idle : c.connectionState = .disconnected → c.interruptReasons = ∅ →
    c.retryHelper.scheduledRetry.isSome
  fetching : c.connectionState = .gettingToken → c.currentFetchTokenAttempt ∈ c.fetches
  fetches_le : ∀ attempt ∈ c.fetches, attempt ≤ c.currentFetchTokenAttempt
  fetches_nodup : c.fetches.Nodup
  fetched : c.currentFetchTokenAttempt ∈ c.fetches →
    c.connectionState = .gettingToken ∨ c.connectionState = .disconnected

/-- What is said of reconnecting depends on these fields only. -/
theorem Reconnects.congr (h : Reconnects c) (hstate : c'.connectionState = c.connectionState)
    (hretry : c'.retryHelper.scheduledRetry = c.retryHelper.scheduledRetry)
    (hreasons : c'.interruptReasons = c.interruptReasons) (hfetches : c'.fetches = c.fetches)
    (hattempt : c'.currentFetchTokenAttempt = c.currentFetchTokenAttempt) : Reconnects c' := by
  obtain ⟨h₁, h₂, h₃, h₄, h₅, h₆⟩ := h
  rw [← hstate] at h₁ h₂ h₃ h₆
  rw [← hretry] at h₁ h₂
  rw [← hreasons] at h₂
  rw [← hfetches] at h₃ h₄ h₅ h₆
  rw [← hattempt] at h₃ h₄ h₆
  exact ⟨h₁, h₂, h₃, h₄, h₅, h₆⟩

/-- The state of the underlying connection in each state, if there is one. -/
def realtimeState : ConnectionState → Option FConnectionState
  | .disconnected | .gettingToken => none
  | .connecting => some .connecting
  | .authenticating | .connected => some .connected

/-- The invariant. -/
structure Inv (c : FPersistentConnection Params Data Block) : Prop where
  pending : Pending c
  reconnects : Reconnects c
  realtime : c.realtime.map (·.state) = realtimeState c.connectionState
  waiting : c.requestCBHash ≠ [] → c.connected = true
  puts_connected : ∀ block ∈ c.waitingBlocks, block.putIndex.isSome = true →
    c.connectionState = .connected

/-- What the invariant reads of a connection. -/
def core (c : FPersistentConnection Params Data Block) :=
  (c.requestCBHash, c.requestNumber, c.unackedListensCount, c.putBlocks, c.putCounter,
    c.connectionState, c.retryHelper.scheduledRetry, c.interruptReasons, c.fetches,
    c.currentFetchTokenAttempt, c.realtime)

/-- The invariant does not depend on anything else. -/
theorem Inv.congr (h : Inv c) (hcore : c'.core = c.core) : Inv c' := by
  simp only [core, Prod.mk.injEq] at hcore
  obtain ⟨hhash, hnumber, hunacked, hputs, hcounter, hstate, hretry, hreasons, hfetches, hattempt,
    hrealtime⟩ := hcore
  refine ⟨h.pending.congr hhash hnumber hunacked hputs hcounter,
    h.reconnects.congr hstate hretry hreasons hfetches hattempt, ?_, fun hne => ?_,
    fun block hblock hput => ?_⟩
  · rw [hrealtime, hstate]
    exact h.realtime
  · rw [connected, hstate]
    exact h.waiting (hhash ▸ hne)
  · rw [hstate]
    rw [waitingBlocks, hhash] at hblock
    exact h.puts_connected block hblock hput

/-- The invariant holds of a new connection. -/
theorem inv_init : Inv (init : FPersistentConnection Params Data Block) := by
  refine ⟨⟨SortedAssoc.sorted_nil, by simp [init], by simp [init, waitingBlocks],
    SortedAssoc.sorted_nil, by simp [init, putBlocks], by simp [init, waitingBlocks]⟩,
    ⟨by simp [init], by simp [init], by simp [init], by simp [init],
      by simp [init], by simp [init]⟩,
    rfl, by simp [init], by simp [init, waitingBlocks]⟩

/-- While the client is connected the invariant gives what sending needs. -/
theorem Inv.online (h : Inv c) (hc : c.connected = true) : Online c := by
  have hreal := h.realtime
  have hstate : realtimeState c.connectionState = some .connected := by
    rcases of_decide_eq_true hc with hs | hs <;> rw [hs] <;> rfl
  rw [hstate] at hreal
  obtain ⟨⟨state, sent⟩, hconn, rfl⟩ := Option.map_eq_some_iff.mp hreal
  exact ⟨sent, hconn⟩

/-- Without an underlying connection nothing waits for an answer. -/
theorem Inv.offline_of_realtime (h : Inv c) (hrealtime : c.realtime = none) :
    c.connectionState.phase = .offline ∧ c.requestCBHash = [] := by
  have hreal := h.realtime
  rw [hrealtime, Option.map_none] at hreal
  constructor
  · cases hc : c.connectionState <;> simp [hc, realtimeState] at hreal <;> rfl
  · by_contra hne
    have hconnected := of_decide_eq_true (h.waiting hne)
    rcases hconnected with hc | hc <;> simp [hc, realtimeState] at hreal

/-! ## What events do for puts -/

/-- Whether the put with a number is a transaction that has been sent. -/
def cancels (c : FPersistentConnection Params Data Block) (index : ℕ) : Bool :=
  (SortedAssoc.find c.outstandingPuts index).any fun put => put.request.hash.isSome && put.sent

/-- What closing the connection does for puts. -/
def closes (c : FPersistentConnection Params Data Block) : Delivery.Op Block :=
  if c.realtime.isSome then .drop c.cancels else .quiet

/-- What it does for puts that the client may send. -/
def restores (c : FPersistentConnection Params Data Block) : Delivery.Op Block :=
  if c.authToken.isNone then .connect c.listens.length else .authenticate

/-- What an answer does for puts. -/
def answers (c : FPersistentConnection Params Data Block) (status : Option String) :
    ResponseBlock Params Block → Delivery.Op Block
  | .auth restoreStateAfterComplete =>
    if status = some "ok" then
      if restoreStateAfterComplete then .restore c.listens.length else .authenticated
    else c.closes
  | .put index _ => .answerPut index
  | .listen _ => .answerListen
  | .onDisconnect _ | .stats => .quiet

/-- What a message does for puts. -/
def messageOp (c : FPersistentConnection Params Data Block) : Message → Delivery.Op Block
  | .response rn status _ => (SortedAssoc.find c.requestCBHash rn).elim .quiet (c.answers status)
  | .authRevoked => c.closes
  | .error _ | .listenRevoked _ => .quiet

/-- What an event does for puts. -/
def op (c : FPersistentConnection Params Data Block) :
    Event Params Data Block → Delivery.Op Block
  | .interruptForReason _ | .connectionLost | .reset | .shutdown => c.closes
  | .listen .. => if c.connected then .listen else .quiet
  | .put _ _ onComplete => .put onComplete
  | .purgeOutstandingWrites => .purge
  | .handshake => if c.connectionState = .connecting then c.restores else .quiet
  | .message message => c.messageOp message
  | .resumeForReason _ | .refreshAuthToken _ | .unlisten .. | .onDisconnect _ | .elapse _ |
    .retryTimer | .tokenFetched .. | .enteringForeground => .quiet

/-- A step to `c'` keeps the invariant and does `op` for puts. -/
structure Does (c : FPersistentConnection Params Data Block) (op : Delivery.Op Block)
    (c' : FPersistentConnection Params Data Block) : Prop where
  inv : Inv c'
  enabled : op.Enabled c.delivery
  delivery : c'.delivery = c.delivery.apply op

/-- A step that leaves the puts alone is a quiet one. -/
theorem Inv.quiet (h : Inv c') (hdelivery : c'.delivery = c.delivery) : Does c .quiet c' :=
  ⟨h, trivial, hdelivery⟩

/-! ## The invariant when requests are sent -/

/-- Sending keeps the invariant. -/
theorem Inv.sends {new : List (ResponseBlock Params Block)} (h : Inv c) (hc : c.connected = true)
    (hsends : Sends c new c')
    (hputs : ∀ block ∈ new, block.putIndex.isSome = true → c.connectionState = .connected) :
    Inv c' := by
  have hconnected : c'.connected = true := by
    rw [connected, hsends.connectionState]
    exact hc
  refine ⟨hsends.pending h.pending, ?_, ?_, fun _ => hconnected, fun block hblock hput => ?_⟩
  · rw [hsends.frame]
    exact h.reconnects.congr rfl rfl rfl rfl rfl
  · obtain ⟨sent, hsent⟩ := hsends.online
    obtain ⟨sent', hsent'⟩ := h.online hc
    rw [hsends.connectionState, ← h.realtime, hsent, hsent']
    rfl
  · rw [hsends.connectionState]
    rw [hsends.waiting h.pending] at hblock
    rcases List.mem_append.mp hblock with hblock | hblock
    · exact h.puts_connected block hblock hput
    · exact hputs block hblock hput

/-- Restoring the state does not trap, and sends the listens and puts again. -/
theorem Inv.restoreState (h : Inv c) (hc : c.connectionState = .connected) :
    ∃ c', c.restoreState = some c' ∧ Inv c' ∧
      c'.delivery = c.delivery.restored c.listens.length := by
  have hconnected : c.connected = true := decide_eq_true (Or.inr hc)
  obtain ⟨c₁, hsends, hrestored⟩ := restoreState_spec (h.online hconnected) hc h.pending
  obtain ⟨hpending, hreconnects, hrealtime, hwaiting, hputs⟩ :=
    h.sends hconnected hsends fun _ _ _ => hc
  refine ⟨_, hrestored, ?_, ?_⟩
  · exact ⟨hpending.congr rfl rfl rfl rfl rfl, hreconnects.congr rfl rfl rfl rfl rfl, hrealtime,
      hwaiting, hputs⟩
  · have hdelivery := hsends.delivery h.pending
    rw [countP_isListen_restored, countP_restoring_restored, filterMap_putIndex_restored]
      at hdelivery
    refine hdelivery.trans ?_
    have hphase : c.delivery.phase = .connected := by rw [delivery, hc]; rfl
    rw [Delivery.restored, ← hphase]
    rfl

/-! ## The invariant when the state changes -/

/-- A retry is scheduled where that is allowed. -/
theorem tryScheduleReconnect_spec (hc : c.connectionState = .disconnected) :
    ∃ c', c.tryScheduleReconnect = some c' ∧
      (c.interruptReasons = ∅ → c'.retryHelper.scheduledRetry.isSome) ∧
      c' = { c with
        forceAuthTokenRefresh := c'.forceAuthTokenRefresh, retryHelper := c'.retryHelper } := by
  rw [tryScheduleReconnect]
  by_cases hreconnect : c.shouldReconnect = true
  · rw [if_pos hreconnect, if_pos hc]
    exact ⟨_, rfl, fun _ => rfl, rfl⟩
  · rw [if_neg hreconnect]
    exact ⟨c, rfl, fun h => absurd (decide_eq_true h) hreconnect, rfl⟩

/-- What is left of the invariant when a connection is lost: no request waits for an answer. -/
structure Offline (c : FPersistentConnection Params Data Block) : Prop where
  pending : Pending c
  fetches_le : ∀ attempt ∈ c.fetches, attempt ≤ c.currentFetchTokenAttempt
  fetches_nodup : c.fetches.Nodup
  disconnected : c.connectionState = .disconnected
  realtime : c.realtime = none
  waiting : c.requestCBHash = []

/-- The invariant holds of a client without a connection that will retry. -/
theorem Offline.inv (h : Offline c)
    (hidle : c.interruptReasons = ∅ → c.retryHelper.scheduledRetry.isSome) : Inv c := by
  refine ⟨h.pending, ?_, ?_, fun hne => absurd h.waiting hne, fun block hblock => ?_⟩
  · refine ⟨fun _ => h.disconnected, fun _ => hidle, fun hstate => ?_, h.fetches_le,
      h.fetches_nodup, fun _ => Or.inr h.disconnected⟩
    rw [h.disconnected] at hstate
    contradiction
  · rw [h.realtime, h.disconnected]
    rfl
  · rw [waitingBlocks, h.waiting] at hblock
    contradiction

/-- The connection has been closed, which has led to `d`. -/
structure Closed (c : FPersistentConnection Params Data Block) (d : Delivery Block)
    (c' : FPersistentConnection Params Data Block) : Prop where
  inv : Inv c'
  interruptReasons : c'.interruptReasons = c.interruptReasons
  disconnected : c'.connectionState = .disconnected
  delivery : c'.delivery = d

/-- Scheduling a retry does not trap. -/
theorem Offline.tryScheduleReconnect (h : Offline c) :
    ∃ c', c.tryScheduleReconnect = some c' ∧ Closed c c.delivery c' := by
  obtain ⟨c', hc', hidle, hframe⟩ := tryScheduleReconnect_spec h.disconnected
  refine ⟨c', hc', Offline.inv ?_ fun hreasons => hidle ?_, by rw [hframe], ?_, ?_⟩
  · rw [hframe]
    exact ⟨h.pending.congr rfl rfl rfl rfl rfl, h.fetches_le, h.fetches_nodup, h.disconnected,
      h.realtime, h.waiting⟩
  · rwa [hframe] at hreasons
  · rw [hframe]
    exact h.disconnected
  · rw [hframe]
    rfl

/-- Cancelling the transactions that have been sent. -/
theorem cancelSentTransactions_eq (h : SortedAssoc.Sorted c.outstandingPuts) :
    c.cancelSentTransactions = { c with
      called := c.called ++ (c.outstandingPuts.filter fun e =>
        e.2.request.hash.isSome && e.2.sent).map fun e =>
          .put e.2.onCompleteBlock (some "disconnect")
            (some "Client was disconnected while running a transaction")
      outstandingPuts := c.outstandingPuts.filter fun e =>
        !(e.2.request.hash.isSome && e.2.sent) } := by
  -- the puts that go are chosen before the first one goes
  rw [← SortedAssoc.foldl_erase_filter h, cancelSentTransactions]
  generalize c.outstandingPuts.filter (fun e => e.2.request.hash.isSome && e.2.sent) = cancelled
  clear h
  induction cancelled generalizing c with
  | nil => simp
  | cons e cancelled ih =>
    rw [List.foldl_cons, ih]
    simp

/-- The outstanding puts by whether they are transactions that have been sent. -/
theorem cancels_eq (h : Pending c) {e : ℕ × FOutstandingPut Data Block}
    (he : e ∈ c.outstandingPuts) :
    c.cancels e.1 = (e.2.request.hash.isSome && e.2.sent) := by
  rw [cancels, (SortedAssoc.find_eq_some_iff h.sorted_outstandingPuts).mpr he, Option.any_some]

/-- When a connection is lost, at most some puts go. -/
theorem Pending.drop (h : Pending c) (hhash : c'.requestCBHash = [])
    (hunacked : c'.unackedListensCount = 0) (hputs : c'.outstandingPuts.Sublist c.outstandingPuts)
    (hcounter : c'.putCounter = c.putCounter) : Pending c' := by
  have hblocks : c'.putBlocks.Sublist c.putBlocks := hputs.map _
  have hwaiting : c'.waitingBlocks = [] := by rw [waitingBlocks, hhash, List.map_nil]
  refine ⟨?_, ?_, ?_, h.puts_sorted.sublist hblocks, fun e he => ?_, ?_⟩
  · rw [hhash]
    exact SortedAssoc.sorted_nil
  · simp [hhash]
  · rw [hunacked, hwaiting, List.countP_nil]
  · rw [hcounter]
    exact h.puts_lt e (hblocks.subset he)
  · simp [hwaiting]

/-- When the connection is dropped the client is without one, and what was sent is forgotten. -/
theorem Inv.dropRealtime (h : Inv c) :
    Offline c.dropRealtime ∧ c.dropRealtime.interruptReasons = c.interruptReasons ∧
      c.dropRealtime.delivery = c.delivery.dropped c.cancels := by
  -- which puts go is the same for the connection and for the operation on puts
  have hcancel := cancelSentTransactions_eq
    (c := { c with connectionState := .disconnected, realtime := none })
    h.pending.sorted_outstandingPuts
  have hkept : (c.outstandingPuts.filter fun e => !(e.2.request.hash.isSome && e.2.sent)) =
      c.outstandingPuts.filter fun e => !c.cancels e.1 :=
    List.filter_congr fun e he => by rw [cancels_eq h.pending he]
  have hcancelled : (c.outstandingPuts.filter fun e => e.2.request.hash.isSome && e.2.sent) =
      c.outstandingPuts.filter fun e => c.cancels e.1 :=
    List.filter_congr fun e he => (cancels_eq h.pending he).symm
  rw [FPersistentConnection.dropRealtime]
  dsimp only
  rw [hcancel]
  refine ⟨⟨h.pending.drop rfl rfl List.filter_sublist rfl, h.reconnects.fetches_le,
    h.reconnects.fetches_nodup, rfl, rfl, rfl⟩, rfl, ?_⟩
  dsimp only
  rw [hkept, hcancelled]
  simp [delivery, Delivery.dropped, putBlocks, sentPuts, waitingBlocks, ConnectionState.phase,
    List.filter_map, List.filterMap_map, Function.comp_def, Call.putBlock]

/-- Losing the connection does not trap. -/
theorem Inv.onDisconnect (h : Inv c) (reason : FDisconnectReason) :
    ∃ c', c.onDisconnect reason = some c' ∧ Closed c (c.delivery.dropped c.cancels) c' := by
  obtain ⟨hoffline, hreasons, hdropped⟩ := h.dropRealtime
  have hscheduled : ∃ c', Closed c (c.delivery.dropped c.cancels) c' ∧
      c.onDisconnect reason = some { c' with lastConnectionEstablishedTime := 0 } := by
    rw [FPersistentConnection.onDisconnect]
    -- a retry is scheduled unless the connection is interrupted
    by_cases hreconnect : c.dropRealtime.shouldReconnect = true
    · have hsignalled : Offline { c.dropRealtime with
          retryHelper := c.dropRealtime.retryHelperAfter reason } :=
        ⟨hoffline.pending.congr rfl rfl rfl rfl rfl, hoffline.fetches_le, hoffline.fetches_nodup,
          hoffline.disconnected, hoffline.realtime, hoffline.waiting⟩
      obtain ⟨c', hc', hclosed⟩ := hsignalled.tryScheduleReconnect
      refine ⟨c', ⟨hclosed.inv, hclosed.interruptReasons.trans hreasons, hclosed.disconnected,
        hclosed.delivery.trans hdropped⟩, ?_⟩
      rw [if_pos hreconnect, hc', Option.map_some]
    · refine ⟨c.dropRealtime, ⟨hoffline.inv fun hempty => ?_, hreasons, hoffline.disconnected,
        hdropped⟩, ?_⟩
      · exact absurd (decide_eq_true hempty) hreconnect
      · rw [if_neg hreconnect, Option.map_some]
  obtain ⟨c', ⟨hinv, hreasons', hdisconnected, hdelivery⟩, hc'⟩ := hscheduled
  exact ⟨_, hc', hinv.congr rfl, hreasons', hdisconnected, hdelivery⟩

/-- A connection that is in use is closed. -/
theorem Inv.closeWithReason_of_isSome (h : Inv c) (hconn : c.realtime.isSome = true)
    (reason : FDisconnectReason) :
    ∃ c', c.closeWithReason reason = some c' ∧ Closed c (c.delivery.dropped c.cancels) c' := by
  obtain ⟨conn, hconn⟩ := Option.isSome_iff_exists.mp hconn
  -- a connection that has ended has been let go of
  have hstate : conn.state ≠ .disconnected := by
    intro hstate
    have hreal := h.realtime
    rw [hconn, Option.map_some, hstate] at hreal
    cases hc : c.connectionState <;> simp [hc, realtimeState] at hreal
  obtain ⟨c', hc', hclosed⟩ := h.onDisconnect reason
  refine ⟨c', ?_, hclosed⟩
  simp [FPersistentConnection.closeWithReason, hconn, hstate, hc']

/-- Closing the connection does not trap. -/
theorem Inv.closeWithReason (h : Inv c) (reason : FDisconnectReason) :
    ∃ c', c.closeWithReason reason = some c' ∧ Does c c.closes c' := by
  by_cases hconn : c.realtime.isSome = true
  · obtain ⟨c', hc', hclosed⟩ := h.closeWithReason_of_isSome hconn reason
    rw [closes, if_pos hconn]
    exact ⟨c', hc', hclosed.inv, trivial, hclosed.delivery⟩
  · rw [closes, if_neg hconn]
    rw [Option.not_isSome_iff_eq_none] at hconn
    exact ⟨c, by simp [FPersistentConnection.closeWithReason, hconn], h.quiet rfl⟩

/-- An interruption closes the connection. -/
theorem Inv.interruptForReason (h : Inv c) (reason : String) :
    ∃ c', c.interruptForReason reason = some c' ∧ Does c c.closes c' := by
  -- being interrupted for one more reason only makes the invariant say less
  have hinterrupted : Inv { c with interruptReasons := insert reason c.interruptReasons } := by
    refine ⟨h.pending.congr rfl rfl rfl rfl rfl, ?_, h.realtime, h.waiting, h.puts_connected⟩
    refine ⟨h.reconnects.scheduled, fun _ hempty => ?_, h.reconnects.fetching,
      h.reconnects.fetches_le, h.reconnects.fetches_nodup, h.reconnects.fetched⟩
    exact absurd hempty (Finset.insert_ne_empty _ _)
  rw [FPersistentConnection.interruptForReason, closes]
  by_cases hrealtime : c.realtime.isSome = true
  · obtain ⟨c', hc', ⟨hinv, -, hdisconnected, hdelivery⟩⟩ :=
      hinterrupted.closeWithReason_of_isSome hrealtime .other
    rw [if_pos hrealtime, if_pos hrealtime, hc', Option.map_some, Option.map_some]
    have hnone : c'.realtime = none := by
      have hreal := hinv.realtime
      rw [hdisconnected] at hreal
      exact Option.map_eq_none_iff.mp hreal
    refine ⟨_, rfl, ⟨hinv.pending.congr rfl rfl rfl rfl rfl,
      hinv.reconnects.congr rfl rfl rfl rfl rfl, ?_, hinv.waiting, hinv.puts_connected⟩, trivial,
      ?_⟩
    · show none = realtimeState c'.connectionState
      rw [hdisconnected]
      rfl
    · refine Eq.trans ?_ hdelivery
      simp [delivery, sentPuts, hnone, putBlocks, waitingBlocks]
  · rw [if_neg hrealtime, if_neg hrealtime, Option.map_some]
    rw [Option.not_isSome_iff_eq_none] at hrealtime
    -- without a connection no request waits for an answer
    obtain ⟨hphase, hwaiting⟩ := h.offline_of_realtime hrealtime
    refine ⟨_, rfl, Inv.quiet ?_ ?_⟩
    · refine ⟨hinterrupted.pending.congr rfl rfl rfl rfl rfl, ?_, ?_, fun hne => ?_,
        fun block hblock => ?_⟩
      · refine ⟨fun _ => rfl, fun _ hempty => ?_, fun hstate => by contradiction,
          h.reconnects.fetches_le, h.reconnects.fetches_nodup, fun _ => Or.inr rfl⟩
        exact absurd hempty (Finset.insert_ne_empty _ _)
      · show c.realtime.map (·.state) = none
        rw [hrealtime, Option.map_none]
      · exact absurd hwaiting hne
      · replace hblock : block ∈ c.waitingBlocks := hblock
        rw [waitingBlocks, hwaiting] at hblock
        contradiction
    · rw [delivery, delivery, hphase]
      rfl

/-- Before a connection has been opened, there is none and nothing waits for an answer. -/
theorem Inv.closed (h : Inv c)
    (hc : c.connectionState = .gettingToken ∨ c.connectionState = .disconnected) :
    c.realtime = none ∧ c.requestCBHash = [] := by
  have hnone : c.realtime = none := by
    have hrealtime := h.realtime
    rcases hc with hc | hc <;> rw [hc] at hrealtime <;> exact Option.map_eq_none_iff.mp hrealtime
  exact ⟨hnone, (h.offline_of_realtime hnone).2⟩

/-- While the client is disconnected it has no connection. -/
theorem Inv.offline (h : Inv c) (hc : c.connectionState = .disconnected) : Offline c := by
  obtain ⟨hrealtime, hwaiting⟩ := h.closed (Or.inr hc)
  exact ⟨h.pending, h.reconnects.fetches_le, h.reconnects.fetches_nodup, hc, hrealtime, hwaiting⟩

/-- Resuming does not trap. -/
theorem Inv.resumeForReason (h : Inv c) (reason : String) :
    ∃ c', c.resumeForReason reason = some c' ∧ Does c .quiet c' := by
  rw [FPersistentConnection.resumeForReason]
  split
  next hresumed =>
    obtain ⟨-, hc⟩ := hresumed
    have hoffline := h.offline hc
    have hresumed : Offline { c with interruptReasons := c.interruptReasons.erase reason } :=
      ⟨hoffline.pending.congr rfl rfl rfl rfl rfl, hoffline.fetches_le, hoffline.fetches_nodup, hc,
        hoffline.realtime, hoffline.waiting⟩
    obtain ⟨c', hc', hclosed⟩ := hresumed.tryScheduleReconnect
    exact ⟨c', hc', hclosed.inv.quiet hclosed.delivery⟩
  next hresumed =>
    refine ⟨_, rfl, Inv.quiet ?_ rfl⟩
    refine ⟨h.pending.congr rfl rfl rfl rfl rfl, ?_, h.realtime, h.waiting, h.puts_connected⟩
    refine ⟨h.reconnects.scheduled, fun hc hempty => ?_, h.reconnects.fetching,
      h.reconnects.fetches_le, h.reconnects.fetches_nodup, h.reconnects.fetched⟩
    -- another reason is left, or the client is not disconnected
    exact absurd ⟨decide_eq_true hempty, hc⟩ hresumed

/-- Entering the foreground does not trap. -/
theorem Inv.enteringForeground (h : Inv c) :
    ∃ c', c.enteringForeground = some c' ∧ Does c .quiet c' := by
  have hsignalled : Inv { c with retryHelper := c.retryHelper.signalSuccess } := h.congr rfl
  rw [FPersistentConnection.enteringForeground]
  split
  next hc =>
    obtain ⟨c', hc', hclosed⟩ := (hsignalled.offline hc).tryScheduleReconnect
    exact ⟨c', hc', hclosed.inv.quiet hclosed.delivery⟩
  next => exact ⟨_, rfl, hsignalled.quiet rfl⟩

/-- The scheduled retry starts a new fetch of a token. -/
theorem Inv.retryTimer (h : Inv c) : ∃ c', c.retryTimer = some c' ∧ Does c .quiet c' := by
  rw [FPersistentConnection.retryTimer]
  split
  next hscheduled =>
    -- a retry is scheduled only while the client is disconnected
    have hc := h.reconnects.scheduled hscheduled
    obtain ⟨hpending, hle, hnodup, -, hrealtime, hwaiting⟩ := h.offline hc
    rw [retryBlock, if_pos hc]
    refine ⟨_, rfl, Inv.quiet ?_ ?_⟩
    · refine ⟨hpending.congr rfl rfl rfl rfl rfl, ?_, ?_, fun hne => absurd hwaiting hne,
        fun block hblock hput => ?_⟩
      · refine ⟨?_, ?_, ?_, ?_, ?_, ?_⟩
        · simp [FIRRetryHelper.elapse]
        · exact fun hstate => by contradiction
        · simp
        · intro attempt hattempt
          rcases List.mem_append.mp hattempt with hattempt | hattempt
          · exact Nat.le_succ_of_le (hle attempt hattempt)
          · exact (List.mem_singleton.mp hattempt).le
        · -- the number of the new attempt has not been used
          refine List.nodup_append.mpr ⟨hnodup, List.nodup_singleton _, ?_⟩
          rintro attempt hattempt _ hnew rfl
          have hle := hle attempt hattempt
          rw [List.mem_singleton.mp hnew] at hle
          exact absurd hle (Nat.not_succ_le_self _)
        · exact fun _ => Or.inl rfl
      · show c.realtime.map (·.state) = none
        rw [hrealtime, Option.map_none]
      · have hconnected := h.puts_connected block hblock hput
        rw [hc] at hconnected
        contradiction
    · rw [delivery, delivery, hc]
      rfl
  next => exact ⟨c, rfl, h.quiet rfl⟩

/-- The answer to an attempt to fetch a token: an old one is ignored, the current one leads to a
connection unless the attempt has been given up. -/
theorem Inv.tokenFetched (h : Inv c) (j : ℕ) (result : Except Unit (Option String)) :
    ∃ c', c.tokenFetched j result = some c' ∧ Does c .quiet c' := by
  rw [FPersistentConnection.tokenFetched.eq_def]
  cases hattempt : c.fetches[j]? with
  | none => exact ⟨c, rfl, h.quiet rfl⟩
  | some attempt =>
    have hsub : (c.fetches.eraseIdx j).Sublist c.fetches := List.eraseIdx_sublist _ _
    have hle : ∀ a ∈ c.fetches.eraseIdx j, a ≤ c.currentFetchTokenAttempt :=
      fun a ha => h.reconnects.fetches_le a (hsub.subset ha)
    have hnodup := h.reconnects.fetches_nodup.eraseIdx j
    have hpending : Pending { c with fetches := c.fetches.eraseIdx j } :=
      h.pending.congr rfl rfl rfl rfl rfl
    dsimp only
    rw [fetchTokenCallback.eq_def]
    by_cases hcurrent : attempt = c.currentFetchTokenAttempt
    -- numbers of attempts are used once, so no other attempt is current
    · have hgone : c.currentFetchTokenAttempt ∉ c.fetches.eraseIdx j := by
        rw [List.mem_eraseIdx_iff_getElem?, ← hcurrent]
        rintro ⟨i, hij, hi⟩
        have hlt := (List.getElem?_eq_some_iff.mp hi).1
        exact hij ((List.getElem?_inj hlt h.reconnects.fetches_nodup).mp (hi.trans hattempt.symm))
      have hc := h.reconnects.fetched (hcurrent ▸ List.mem_of_getElem? hattempt)
      obtain ⟨hrealtime, hwaiting⟩ := h.closed hc
      obtain ⟨hphase, -⟩ := h.offline_of_realtime hrealtime
      have hblocks : c.waitingBlocks = [] := by rw [waitingBlocks, hwaiting, List.map_nil]
      rw [if_pos hcurrent]
      cases result with
      | error _ =>
        have hoffline : Offline { c with
            fetches := c.fetches.eraseIdx j, connectionState := .disconnected } :=
          ⟨hpending.congr rfl rfl rfl rfl rfl, hle, hnodup, rfl, hrealtime, hwaiting⟩
        obtain ⟨c', hc', hclosed⟩ := hoffline.tryScheduleReconnect
        refine ⟨c', hc', hclosed.inv.quiet (hclosed.delivery.trans ?_)⟩
        rw [delivery, delivery, hphase]
        rfl
      | ok token =>
        dsimp only
        rcases hc with hc | hc
        · rw [if_pos hc, openNetworkConnectionWithToken, if_pos hc]
          -- a scheduled retry would mean that the client is disconnected
          have hscheduled : c.retryHelper.scheduledRetry.isSome ≠ true := by
            intro hscheduled
            rw [h.reconnects.scheduled hscheduled] at hc
            contradiction
          refine ⟨_, rfl, Inv.quiet ?_ ?_⟩
          · refine ⟨hpending.congr rfl rfl rfl rfl rfl, ?_, rfl, fun hne => absurd hwaiting hne,
              fun block hblock => ?_⟩
            · exact ⟨fun hs => absurd hs hscheduled, fun hs => by contradiction,
                fun hs => by contradiction, hle, hnodup, fun hmem => absurd hmem hgone⟩
            · replace hblock : block ∈ c.waitingBlocks := hblock
              rw [hblocks] at hblock
              contradiction
          · -- nothing has been sent over the new connection
            rw [delivery, delivery, hphase, sentPuts, sentPuts, hrealtime]
            rfl
        · have hne : c.connectionState ≠ .gettingToken := by simp [hc]
          rw [if_neg hne, if_pos hc]
          refine ⟨_, rfl, Inv.quiet ?_ rfl⟩
          refine ⟨hpending, ?_, h.realtime, h.waiting, h.puts_connected⟩
          exact ⟨h.reconnects.scheduled, h.reconnects.idle, fun hs => absurd hs hne, hle, hnodup,
            fun hmem => absurd hmem hgone⟩
    · rw [if_neg hcurrent]
      refine ⟨_, rfl, Inv.quiet ?_ rfl⟩
      refine ⟨hpending, ?_, h.realtime, h.waiting, h.puts_connected⟩
      refine ⟨h.reconnects.scheduled, h.reconnects.idle, fun hs => ?_, hle, hnodup,
        fun hmem => h.reconnects.fetched (hsub.subset hmem)⟩
      -- the current attempt is another one and stays unanswered
      obtain ⟨i, hi⟩ := List.mem_iff_getElem?.mp (h.reconnects.fetching hs)
      refine List.mem_eraseIdx_iff_getElem?.mpr ⟨i, fun hij => hcurrent ?_, hi⟩
      rw [hij, hattempt] at hi
      exact Option.some.inj hi

/-! ## The invariant when something comes from the server -/

/-- A new connection without a put on the way is restored, or authenticated first. -/
theorem Inv.restoreAuth (h : Pending c) (hr : Reconnects c) (hc : c.connectionState = .connecting)
    (honline : Online c) (hputs : ∀ block ∈ c.waitingBlocks, block.putIndex = none) :
    ∃ c', c.restoreAuth = some c' ∧ Does c c.restores c' := by
  have hphase : c.delivery.phase = .offline := by
    show c.connectionState.phase = .offline
    rw [hc]
    rfl
  -- in both cases the client counts as connected before it sends anything
  have hconnected : ∀ (connectionState : ConnectionState),
      connectionState = .connected ∨ connectionState = .authenticating →
      Inv { c with connectionState } := by
    intro connectionState hstate
    obtain ⟨sent, hsent⟩ := honline
    refine ⟨h.congr rfl rfl rfl rfl rfl, ?_, ?_, fun _ => ?_, fun block hblock hput => ?_⟩
    · refine ⟨fun hs => ?_, fun hs => ?_, fun hs => ?_, hr.fetches_le, hr.fetches_nodup,
        fun hmem => ?_⟩
      · have := hr.scheduled hs
        rw [hc] at this
        contradiction
      · rcases hstate with rfl | rfl <;> contradiction
      · rcases hstate with rfl | rfl <;> contradiction
      · have := hr.fetched hmem
        rw [hc] at this
        simp at this
    · show c.realtime.map (·.state) = _
      rw [hsent]
      rcases hstate with rfl | rfl <;> rfl
    · rcases hstate with rfl | rfl <;> rfl
    · rw [hputs block hblock] at hput
      contradiction
  rw [FPersistentConnection.restoreAuth, if_pos hc, FPersistentConnection.restores]
  split
  next =>
    obtain ⟨c', hc', hinv, hdelivery⟩ := (hconnected .connected (Or.inl rfl)).restoreState rfl
    exact ⟨c', hc', hinv, hphase, hdelivery⟩
  next htoken =>
    have hauth := hconnected .authenticating (Or.inr rfl)
    obtain ⟨credential, hcredential⟩ :=
      Option.ne_none_iff_exists'.mp (mt Option.isNone_iff_eq_none.mpr htoken)
    obtain ⟨c', hc', hsends⟩ := sends_sendAuth (hauth.online rfl) rfl hcredential true
    refine ⟨c', hc', hauth.sends rfl hsends fun block hblock hput => ?_, hphase, ?_⟩
    · rw [List.mem_singleton.mp hblock] at hput
      contradiction
    · rw [hsends.delivery hauth.pending]
      exact Delivery.ext rfl rfl rfl rfl rfl (List.append_nil _) rfl rfl

/-- After the handshake a token is sent, or the state is restored at once. -/
theorem Inv.onHandshake (h : Inv c) :
    ∃ c', c.onHandshake = some c' ∧
      Does c (if c.connectionState = .connecting then c.restores else .quiet) c' := by
  by_cases hc : c.connectionState = .connecting
  · rw [if_pos hc]
    obtain ⟨conn, hconn, hstate⟩ : ∃ conn, c.realtime = some conn ∧ conn.state = .connecting := by
      have hrealtime := h.realtime
      rw [hc] at hrealtime
      exact Option.map_eq_some_iff.mp hrealtime
    have hwaiting : c.waitingBlocks = [] := by
      have hnil : c.requestCBHash = [] := by
        by_contra hne
        have hconnected := h.waiting hne
        simp [connected, hc] at hconnected
      rw [waitingBlocks, hnil, List.map_nil]
    let ready : FPersistentConnection Params Data Block := { c with
      realtime := some { conn with state := .connected }
      lastConnectionEstablishedTime := c.date }
    have honline : Online ready := ⟨conn.sent, rfl⟩
    have hpending : Pending ready := h.pending.congr rfl rfl rfl rfl rfl
    -- the first connection tells the server about the client before anything else
    obtain ⟨c₁, new, hc₁, hsends, hsilent⟩ : ∃ c₁ new,
        (if c.firstConnection then ready.sendAction .stats (some .stats) else some ready) =
          some c₁ ∧ Sends ready new c₁ ∧ Silent new := by
      by_cases hfirst : c.firstConnection = true
      · rw [if_pos hfirst]
        obtain ⟨c₁, hc₁, hsends⟩ :=
          sends_sendAction honline .stats .stats rfl rfl fun _ _ hput => by contradiction
        exact ⟨c₁, _, hc₁, hsends, silent_singleton rfl rfl rfl⟩
      · rw [if_neg hfirst]
        exact ⟨ready, [], rfl, Sends.refl honline, silent_nil⟩
    have hreconnects : Reconnects c₁ := by
      rw [hsends.frame]
      exact h.reconnects.congr rfl rfl rfl rfl rfl
    have hputs : ∀ block ∈ c₁.waitingBlocks, block.putIndex = none := by
      have hready : ready.waitingBlocks = [] := hwaiting
      rw [hsends.waiting hpending, hready, List.nil_append]
      exact fun block hblock => (hsilent block hblock).1
    obtain ⟨c₂, hc₂, hinv, henabled, hdelivery⟩ := Inv.restoreAuth (hsends.pending hpending)
      hreconnects (hsends.connectionState.trans hc) hsends.online hputs
    have hrestores : c₁.restores = c.restores := by
      rw [hsends.frame]
      rfl
    -- statistics are no put, no listen and no authentication
    have hsame : c₁.delivery = c.delivery := by
      refine (hsends.delivery_eq hpending hsilent).trans ?_
      rw [delivery, delivery, sentPuts, sentPuts, hconn]
      rfl
    rw [hsame, hrestores] at henabled hdelivery
    refine ⟨{ c₂ with firstConnection := false }, ?_, hinv.congr rfl, henabled, hdelivery⟩
    have hready : c.onHandshake =
        (if c.firstConnection then ready.sendAction .stats (some .stats) else some ready).bind
          fun c => c.restoreAuth.map fun c => { c with firstConnection := false } := by
      simp [FPersistentConnection.onHandshake, hconn, hstate, onReady, ready]
    rw [hready, hc₁, Option.bind_some, hc₂, Option.map_some]
  · rw [if_neg hc]
    refine ⟨c, ?_, h.quiet rfl⟩
    cases hconn : c.realtime with
    | none => simp [FPersistentConnection.onHandshake, hconn]
    | some conn =>
      have hstate : conn.state ≠ .connecting := by
        intro hstate
        have hrealtime := h.realtime
        rw [hconn, Option.map_some, hstate] at hrealtime
        cases hs : c.connectionState <;> simp [hs, realtimeState] at hrealtime
        exact hc hs
      simp [FPersistentConnection.onHandshake, hconn, hstate]

/-- Taking puts away and answering requests. -/
theorem Pending.answer (h : Pending c) {rn : ℕ} {block : ResponseBlock Params Block}
    (hfind : SortedAssoc.find c.requestCBHash rn = some block)
    (hhash : c'.requestCBHash = SortedAssoc.erase c.requestCBHash rn)
    (hnumber : c'.requestNumber = c.requestNumber)
    (hunacked : c.unackedListensCount = c'.unackedListensCount + if block.isListen then 1 else 0)
    (hputs : c'.outstandingPuts.Sublist c.outstandingPuts)
    (hcounter : c'.putCounter = c.putCounter) : Pending c' := by
  have hblocks : c'.putBlocks.Sublist c.putBlocks := hputs.map _
  have hperm : c.waitingBlocks.Perm (block :: c'.waitingBlocks) := by
    rw [waitingBlocks, waitingBlocks, hhash]
    exact (SortedAssoc.perm_erase hfind).map _
  refine ⟨?_, ?_, ?_, h.puts_sorted.sublist hblocks, ?_, ?_⟩
  · rw [hhash]
    exact h.requests_sorted.erase rn
  · rw [hhash, hnumber]
    exact fun e he => h.requests_lt e (SortedAssoc.mem_erase he)
  · -- the counter and the listens that wait lose one together
    have hcount := h.unacked
    rw [hperm.countP_eq, List.countP_cons, hunacked] at hcount
    exact Nat.add_right_cancel hcount
  · rw [hcounter]
    exact fun e he => h.puts_lt e (hblocks.subset he)
  · rw [hcounter]
    intro index onComplete hwaiting
    obtain ⟨hindex, hunique⟩ := h.puts_waiting index onComplete
      (hperm.mem_iff.mpr (List.mem_cons_of_mem _ hwaiting))
    exact ⟨hindex, fun b hb => hunique b (hblocks.subset hb)⟩

/-- Changing only the requests and puts of a connection that is open. -/
theorem Inv.of_pending (h : Inv c) (hc : c.connected = true) (hpending : Pending c')
    (hstate : c'.connectionState = c.connectionState)
    (hretry : c'.retryHelper = c.retryHelper) (hreasons : c'.interruptReasons = c.interruptReasons)
    (hfetches : c'.fetches = c.fetches)
    (hattempt : c'.currentFetchTokenAttempt = c.currentFetchTokenAttempt)
    (hrealtime : c'.realtime = c.realtime)
    (hwaiting : ∀ block ∈ c'.waitingBlocks, block ∈ c.waitingBlocks) : Inv c' := by
  refine ⟨hpending, h.reconnects.congr hstate (by rw [hretry]) hreasons hfetches hattempt, ?_,
    fun _ => ?_, fun block hblock hput => ?_⟩
  · rw [hrealtime, hstate]
    exact h.realtime
  · rw [connected, hstate]
    exact hc
  · rw [hstate]
    exact h.puts_connected block (hwaiting block hblock) hput

/-- Completing a listen calls no block of a put. -/
theorem completeListen_spec (c : FPersistentConnection Params Data Block)
    (listenSpec : FOutstandingQuery Params Block) (status : Option String) :
    ∃ listens called, c.completeListen listenSpec status = { c with listens, called } ∧
      called.filterMap Call.putBlock = c.called.filterMap Call.putBlock := by
  rw [completeListen]
  split
  · refine ⟨_, _, rfl, ?_⟩
    rw [List.filterMap_append]
    exact List.append_nil _
  · exact ⟨c.listens, c.called, rfl, rfl⟩

/-- Counting an answered listen down, and releasing what is held back after the last one. -/
theorem countAckedListen_spec (hpos : 0 < c.unackedListensCount) :
    ∃ called putsToAck, c.countAckedListen = { c with
      called := called
      putsToAck := putsToAck
      unackedListensCount := c.unackedListensCount - 1 } := by
  rw [countAckedListen, if_neg (Nat.pos_iff_ne_zero.mp hpos)]
  dsimp only
  split
  · exact ⟨_, _, rfl⟩
  · exact ⟨c.called, c.putsToAck, rfl⟩

/-- The blocks of the puts that are called. -/
theorem filterMap_putBlock_map_put (puts : List (FTupleCallbackStatus Block)) :
    (puts.map fun put => Call.put put.block put.status put.errorReason).filterMap Call.putBlock =
      puts.map (·.block) := by
  simp [List.filterMap_map, Function.comp_def, Call.putBlock]

/-- Acknowledging puts releases what is held back. -/
theorem delivery_ackPuts (c : FPersistentConnection Params Data Block) :
    c.ackPuts.delivery = c.delivery.release := by
  refine Delivery.ext rfl ?_ rfl rfl rfl rfl rfl rfl
  show (c.called ++ _).filterMap Call.putBlock = _
  rw [List.filterMap_append, filterMap_putBlock_map_put]
  rfl

/-- Counting an answered listen is answering it. -/
theorem delivery_countAckedListen (hpos : 0 < c.unackedListensCount) :
    c.countAckedListen.delivery = c.delivery.answerListen := by
  rw [countAckedListen, if_neg (Nat.pos_iff_ne_zero.mp hpos), Delivery.answerListen]
  dsimp only
  by_cases hlast : c.unackedListensCount - 1 = 0
  · rw [if_pos hlast, delivery_ackPuts]
    exact (if_pos hlast).symm
  · rw [if_neg hlast]
    exact (if_neg hlast).symm

/-- The outstanding puts without the one that is answered. -/
theorem putBlocks_erase (c : FPersistentConnection Params Data Block) (index : ℕ) :
    (SortedAssoc.erase c.outstandingPuts index).map (fun e => (e.1, e.2.onCompleteBlock)) =
      SortedAssoc.erase c.putBlocks index :=
  (SortedAssoc.erase_map (fun _ (put : FOutstandingPut Data Block) => put.onCompleteBlock) _
    index).symm

section Answers

variable {rn : ℕ} {block : ResponseBlock Params Block}

/-- The block that waits for the answer, and those that go on waiting. -/
theorem perm_waitingBlocks (hfind : SortedAssoc.find c.requestCBHash rn = some block) :
    c.waitingBlocks.Perm (block :: (SortedAssoc.erase c.requestCBHash rn).map (·.2)) :=
  (SortedAssoc.perm_erase hfind).map _

/-- Those that go on waiting were waiting before. -/
theorem mem_waitingBlocks_of_erase (hfind : SortedAssoc.find c.requestCBHash rn = some block) :
    ∀ b ∈ (SortedAssoc.erase c.requestCBHash rn).map (·.2), b ∈ c.waitingBlocks :=
  fun _ hb => (perm_waitingBlocks hfind).mem_iff.mpr (List.mem_cons_of_mem _ hb)

/-- An answer takes its authentication out of those that are on the way. -/
theorem countP_restoring_erase (hfind : SortedAssoc.find c.requestCBHash rn = some block) :
    c.waitingBlocks.countP (·.restoring) =
      ((SortedAssoc.erase c.requestCBHash rn).map (·.2)).countP (·.restoring) +
        if block.restoring then 1 else 0 := by
  rw [(perm_waitingBlocks hfind).countP_eq, List.countP_cons]

/-- Something waits for an answer only while the client is connected. -/
theorem Inv.connected_of_find (h : Inv c)
    (hfind : SortedAssoc.find c.requestCBHash rn = some block) : c.connected = true := by
  refine h.waiting fun hnil => ?_
  rw [hnil] at hfind
  contradiction

/-- Taking out the block of an answer other than that to a listen. -/
theorem Inv.pending_erase (h : Inv c)
    (hfind : SortedAssoc.find c.requestCBHash rn = some block) (hlisten : block.isListen = false) :
    Pending { c with requestCBHash := SortedAssoc.erase c.requestCBHash rn } :=
  h.pending.answer hfind rfl rfl (by simp [hlisten]) (List.Sublist.refl _) rfl

/-- The answer to an authentication restores the state, or closes the connection. -/
theorem Inv.authResponse (h : Inv c) {restoreStateAfterComplete : Bool}
    (hfind : SortedAssoc.find c.requestCBHash rn = some (.auth restoreStateAfterComplete))
    (status : Option String) :
    ∃ c', { c with requestCBHash := SortedAssoc.erase c.requestCBHash rn }.authResponse
        restoreStateAfterComplete status = some c' ∧
      Does c (c.answers status (.auth restoreStateAfterComplete)) c' := by
  have hc := h.connected_of_find hfind
  have hauths := countP_restoring_erase hfind
  obtain ⟨sent, hsent⟩ := h.online hc
  have hauth : Inv { c with
      requestCBHash := SortedAssoc.erase c.requestCBHash rn, connectionState := .connected } := by
    have hne : c.connectionState ≠ .disconnected ∧ c.connectionState ≠ .gettingToken := by
      rcases of_decide_eq_true hc with hs | hs <;> simp [hs]
    refine ⟨(h.pending_erase hfind rfl).congr rfl rfl rfl rfl rfl, ?_, ?_, fun _ => rfl,
      fun _ _ _ => rfl⟩
    · refine ⟨fun hs => absurd (h.reconnects.scheduled hs) hne.1, fun hs => by contradiction,
        fun hs => by contradiction, h.reconnects.fetches_le, h.reconnects.fetches_nodup,
        fun hmem => ?_⟩
      rcases h.reconnects.fetched hmem with hs | hs
      · exact absurd hs hne.2
      · exact absurd hs hne.1
    · show c.realtime.map (·.state) = _
      rw [hsent]
      rfl
  rw [FPersistentConnection.authResponse, answers]
  dsimp only
  by_cases hstatus : status = some "ok"
  · rw [if_pos hstatus, if_pos hstatus]
    cases restoreStateAfterComplete with
    | true =>
      obtain ⟨c', hc', hinv, hdelivery⟩ := hauth.restoreState rfl
      refine ⟨c', hc', hinv, ?_, ?_⟩
      · show 0 < c.waitingBlocks.countP (·.restoring)
        rw [hauths]
        exact Nat.succ_pos _
      · refine hdelivery.trans (Delivery.ext rfl rfl rfl rfl rfl rfl rfl ?_)
        show _ = c.waitingBlocks.countP (·.restoring) - 1
        rw [hauths]
        rfl
    | false => exact ⟨_, rfl, hauth, trivial, Delivery.ext rfl rfl rfl rfl rfl rfl rfl hauths.symm⟩
  · rw [if_neg hstatus, if_neg hstatus]
    have hrefused : Inv { c with
        requestCBHash := SortedAssoc.erase c.requestCBHash rn, connectionState := .connected,
        authToken := none, forceAuthTokenRefresh := true } := hauth.congr rfl
    have hopen : c.realtime.isSome = true := by rw [hsent, Option.isSome_some]
    obtain ⟨c', hc', hclosed⟩ := hrefused.closeWithReason_of_isSome hopen .other
    rw [closes, if_pos hopen]
    exact ⟨c', hc', hclosed.inv, trivial, hclosed.delivery⟩

/-- The answer to a put: its block is called, or held back while listens are unanswered. -/
theorem Inv.putResponse (h : Inv c) {index : ℕ} {onComplete : Block}
    (hfind : SortedAssoc.find c.requestCBHash rn = some (.put index onComplete))
    (status data : Option String) :
    Does c (.answerPut index) ({ c with
      requestCBHash := SortedAssoc.erase c.requestCBHash rn }.putResponse index onComplete status
        data) := by
  have hc := h.connected_of_find hfind
  have hsub := mem_waitingBlocks_of_erase hfind
  have hauths := countP_restoring_erase hfind
  have hmap : SortedAssoc.find c.putBlocks index =
      (SortedAssoc.find c.outstandingPuts index).map (·.onCompleteBlock) :=
    SortedAssoc.find_map (fun _ (put : FOutstandingPut Data Block) => put.onCompleteBlock) _ index
  rw [FPersistentConnection.putResponse]
  dsimp only
  cases hput : SortedAssoc.find c.outstandingPuts index with
  | none =>
    refine ⟨?_, trivial, ?_⟩
    · exact h.of_pending hc (h.pending_erase hfind rfl) rfl rfl rfl rfl rfl rfl hsub
    · rw [hput, Option.map_none] at hmap
      have hanswer : c.delivery.apply (.answerPut index) = c.delivery := by
        show (SortedAssoc.find c.putBlocks index).elim c.delivery _ = c.delivery
        rw [hmap, Option.elim_none]
      rw [hanswer]
      exact Delivery.ext rfl rfl rfl rfl rfl rfl rfl hauths.symm
  | some put =>
    rw [hput, Option.map_some] at hmap
    -- the put that is outstanding is the one that was sent
    have hmem := (SortedAssoc.find_eq_some_iff h.pending.puts_sorted).mp hmap
    have hwaiting := (perm_waitingBlocks hfind).mem_iff.mpr List.mem_cons_self
    rw [(h.pending.puts_waiting index onComplete hwaiting).2 _ hmem] at hmap
    have hsublist := SortedAssoc.erase_sublist c.outstandingPuts index
    have hanswer : c.delivery.apply (.answerPut index) =
        if c.delivery.listens = 0 then
          { c.delivery with
            outstanding := SortedAssoc.erase c.putBlocks index
            answered := c.delivery.answered ++ [onComplete] }
        else
          { c.delivery with
            outstanding := SortedAssoc.erase c.putBlocks index
            held := c.delivery.held ++ [onComplete] } := by
      show (SortedAssoc.find c.putBlocks index).elim c.delivery _ = _
      rw [hmap, Option.elim_some]
      rfl
    rw [Option.isSome_some, if_pos rfl]
    by_cases hzero : c.unackedListensCount = 0
    · rw [if_pos hzero]
      refine ⟨?_, trivial, ?_⟩
      · refine h.of_pending hc ?_ rfl rfl rfl rfl rfl rfl hsub
        exact h.pending.answer hfind rfl rfl rfl hsublist rfl
      · refine Eq.trans ?_ (hanswer.trans (if_pos hzero)).symm
        refine Delivery.ext rfl ?_ rfl (putBlocks_erase c index) rfl rfl rfl hauths.symm
        exact List.filterMap_append
    · rw [if_neg hzero]
      refine ⟨?_, trivial, ?_⟩
      · refine h.of_pending hc ?_ rfl rfl rfl rfl rfl rfl hsub
        exact h.pending.answer hfind rfl rfl rfl hsublist rfl
      · refine Eq.trans ?_ (hanswer.trans (if_neg hzero)).symm
        refine Delivery.ext rfl rfl ?_ (putBlocks_erase c index) rfl rfl rfl hauths.symm
        exact List.map_append

/-- The answer to a listen: it is no longer counted, and the last one releases what is held back. -/
theorem Inv.listenResponse (h : Inv c) {listenSpec : FOutstandingQuery Params Block}
    (hfind : SortedAssoc.find c.requestCBHash rn = some (.listen listenSpec))
    (status : Option String) :
    Does c .answerListen
      ({ c with requestCBHash := SortedAssoc.erase c.requestCBHash rn }.listenResponse listenSpec
        status) := by
  have hc := h.connected_of_find hfind
  -- the listen that is answered has been counted
  have hcount := h.pending.unacked
  rw [(perm_waitingBlocks hfind).countP_eq, List.countP_cons_of_pos rfl] at hcount
  have hpos : 0 < c.unackedListensCount := hcount ▸ Nat.succ_pos _
  obtain ⟨listens, called, hcomplete, hcalled⟩ := completeListen_spec
    { c with requestCBHash := SortedAssoc.erase c.requestCBHash rn } listenSpec status
  obtain ⟨called', putsToAck, hcounted⟩ := countAckedListen_spec (c := { c with
    requestCBHash := SortedAssoc.erase c.requestCBHash rn, listens, called }) hpos
  have hdelivery := delivery_countAckedListen (c := { c with
    requestCBHash := SortedAssoc.erase c.requestCBHash rn, listens, called }) hpos
  have hsame : delivery { c with
      requestCBHash := SortedAssoc.erase c.requestCBHash rn, listens, called } = c.delivery :=
    Delivery.ext rfl hcalled rfl rfl rfl rfl rfl (countP_restoring_erase hfind).symm
  rw [FPersistentConnection.listenResponse, hcomplete]
  refine ⟨?_, hpos, ?_⟩
  · rw [hcounted]
    refine h.of_pending hc ?_ rfl rfl rfl rfl rfl rfl (mem_waitingBlocks_of_erase hfind)
    refine h.pending.answer hfind rfl rfl ?_ (List.Sublist.refl _) rfl
    exact (Nat.sub_add_cancel hpos).symm
  · rw [hdelivery, hsame]
    rfl

/-- An answer that has nothing to do with puts, and calls no block of one. -/
theorem Inv.silentResponse (h : Inv c)
    (hfind : SortedAssoc.find c.requestCBHash rn = some block) (hlisten : block.isListen = false)
    (hrestoring : block.restoring = false) {called : List (Call Block)}
    (hcalled : called.filterMap Call.putBlock = []) :
    Does c .quiet { c with
      requestCBHash := SortedAssoc.erase c.requestCBHash rn, called := c.called ++ called } := by
  refine Inv.quiet ?_ ?_
  · refine h.of_pending (h.connected_of_find hfind) ?_ rfl rfl rfl rfl rfl rfl
      (mem_waitingBlocks_of_erase hfind)
    exact (h.pending_erase hfind hlisten).congr rfl rfl rfl rfl rfl
  · have hauths := countP_restoring_erase hfind
    rw [hrestoring] at hauths
    refine Delivery.ext rfl ?_ rfl rfl rfl rfl rfl hauths.symm
    show (c.called ++ called).filterMap Call.putBlock = _
    rw [List.filterMap_append, hcalled]
    exact List.append_nil _

/-- The block that waits for an answer is called. -/
theorem Inv.answer (h : Inv c) (hfind : SortedAssoc.find c.requestCBHash rn = some block)
    (status data : Option String) :
    ∃ c', callBlock { c with requestCBHash := SortedAssoc.erase c.requestCBHash rn } status data
      block = some c' ∧ Does c (c.answers status block) c' := by
  cases block with
  | auth restoreStateAfterComplete => exact h.authResponse hfind status
  | put index onComplete => exact ⟨_, rfl, h.putResponse hfind status data⟩
  | listen listenSpec => exact ⟨_, rfl, h.listenResponse hfind status⟩
  | onDisconnect onComplete => exact ⟨_, rfl, h.silentResponse hfind rfl rfl rfl⟩
  | stats =>
    have hsilent : Does c .quiet { c with
        requestCBHash := SortedAssoc.erase c.requestCBHash rn, called := c.called ++ [] } :=
      h.silentResponse hfind rfl rfl rfl
    rw [List.append_nil] at hsilent
    exact ⟨_, rfl, hsilent⟩

end Answers

/-- No message but an error of the server traps. -/
theorem Inv.onDataMessage (h : Inv c) (message : Message)
    (hmessage : ∀ error, message ≠ .error error) :
    ∃ c', c.onDataMessage message = some c' ∧ Does c (c.messageOp message) c' := by
  cases message with
  | response rn status data =>
    rw [FPersistentConnection.onDataMessage, messageOp]
    cases hfind : SortedAssoc.find c.requestCBHash rn with
    | none => exact ⟨c, rfl, h.quiet rfl⟩
    | some block => exact h.answer hfind status data
  | error error => exact absurd rfl (hmessage error)
  | authRevoked =>
    have hrevoked : Inv { c with authToken := none, forceAuthTokenRefresh := true } := h.congr rfl
    obtain ⟨c', hc', hinv, henabled, hdelivery⟩ := hrevoked.closeWithReason .other
    exact ⟨c', hc', hinv, henabled, hdelivery⟩
  | listenRevoked path =>
    refine ⟨_, rfl, Inv.quiet ?_ ?_⟩
    · exact h.congr rfl
    · refine Delivery.ext rfl ?_ rfl rfl rfl rfl rfl rfl
      show (c.called ++ _).filterMap Call.putBlock = _
      simp [List.filterMap_map, Function.comp_def, Call.putBlock, delivery]

/-! ## The invariant when the client asks for something -/

/-- A request that has nothing to do with puts, and is sent if the client is connected. -/
theorem Inv.quiet_if (h : Inv c) (condition : Prop) [Decidable condition]
    {new : List (ResponseBlock Params Block)} (hsilent : Silent new)
    (hcondition : condition → c.connected = true)
    {send : Option (FPersistentConnection Params Data Block)}
    (hsend : condition → Online c → ∃ c', send = some c' ∧ Sends c new c') :
    ∃ c', (if condition then send else some c) = some c' ∧ Does c .quiet c' := by
  split
  next hc =>
    obtain ⟨c', hc', hsends⟩ := hsend hc (h.online (hcondition hc))
    refine ⟨c', hc', Inv.quiet ?_ (hsends.delivery_eq h.pending hsilent)⟩
    refine h.sends (hcondition hc) hsends fun block hblock hput => ?_
    rw [(hsilent block hblock).1] at hput
    contradiction
  next => exact ⟨c, rfl, h.quiet rfl⟩

/-- Issuing a put does not trap. -/
theorem Inv.putInternal (h : Inv c) (action : PutAction) (request : PutRequest Data)
    (onComplete : Block) :
    ∃ c', c.putInternal action request onComplete = some c' ∧ Does c (.put onComplete) c' := by
  have hputs : SortedAssoc.insert c.outstandingPuts c.putCounter
      ⟨action, request, onComplete, false⟩ =
        c.outstandingPuts ++ [(c.putCounter, ⟨action, request, onComplete, false⟩)] := by
    refine SortedAssoc.insert_of_gt (fun e he => Nat.compare_eq_gt.mpr ?_) _
    exact h.pending.puts_lt _ (mem_putBlocks he)
  let added : FPersistentConnection Params Data Block := { c with
    putCounter := c.putCounter + 1
    outstandingPuts := SortedAssoc.insert c.outstandingPuts c.putCounter
      ⟨action, request, onComplete, false⟩ }
  have hblocks : added.putBlocks = c.putBlocks ++ [(c.putCounter, onComplete)] := by
    simp [putBlocks, added, hputs]
  have hadded : Inv added := by
    refine ⟨?_, h.reconnects.congr rfl rfl rfl rfl rfl, h.realtime, h.waiting, h.puts_connected⟩
    obtain ⟨hsorted, hlt, hunacked, hputsSorted, hputsLt, hwaiting⟩ := h.pending
    refine ⟨hsorted, hlt, hunacked, ?_, ?_, ?_⟩
    · rw [hblocks]
      refine SortedAssoc.sorted_append.mpr ⟨hputsSorted, List.pairwise_singleton _ _, ?_⟩
      rintro e he _ hnew
      rw [List.mem_singleton.mp hnew]
      exact Nat.compare_eq_lt.mpr (hputsLt e he)
    · rw [hblocks]
      intro e he
      rcases List.mem_append.mp he with he | he
      · exact Nat.lt_succ_of_lt (hputsLt e he)
      · rw [List.mem_singleton.mp he]
        exact Nat.lt_succ_self _
    · intro index b hmem
      obtain ⟨hindex, hunique⟩ := hwaiting index b hmem
      refine ⟨Nat.lt_succ_of_lt hindex, fun b' hb' => ?_⟩
      rw [hblocks] at hb'
      rcases List.mem_append.mp hb' with hb' | hb'
      · exact hunique b' hb'
      · obtain ⟨rfl, -⟩ := Prod.mk.inj (List.mem_singleton.mp hb')
        exact absurd hindex (Nat.lt_irrefl _)
  have hindex : (c.putCounter, onComplete) ∈ added.putBlocks := by simp [hblocks]
  have hsent : c.delivery.apply (.put onComplete) = { added.delivery with
      sent := if c.delivery.phase = .connected then c.sentPuts ++ [c.putCounter]
        else c.sentPuts } :=
    Delivery.ext rfl rfl rfl hblocks.symm rfl rfl rfl rfl
  rw [FPersistentConnection.putInternal]
  split
  next hwrites =>
    have hc : added.connectionState = .connected := of_decide_eq_true hwrites
    have hconnected : added.connected = true := decide_eq_true (Or.inr hc)
    obtain ⟨c', hc', hsends⟩ := sends_sendPut (hadded.online hconnected) hc hadded.pending hindex
    refine ⟨c', hc', hadded.sends hconnected hsends fun _ _ _ => hc, trivial, ?_⟩
    have hphase : c.delivery.phase = .connected := congrArg ConnectionState.phase hc
    rw [hsent, if_pos hphase, hsends.delivery hadded.pending]
    rfl
  next hwrites =>
    have hphase : c.delivery.phase ≠ .connected := by
      intro hphase
      refine hwrites (decide_eq_true ?_)
      show c.connectionState = .connected
      replace hphase : c.connectionState.phase = .connected := hphase
      cases hc : c.connectionState <;> simp [hc, ConnectionState.phase] at hphase ⊢
    refine ⟨added, rfl, hadded, trivial, ?_⟩
    rw [hsent, if_neg hphase]
    rfl

/-- A request for when the connection is lost does not trap. -/
theorem Inv.onDisconnectRequest (h : Inv c) (tuple : FTupleOnDisconnect Data Block) :
    ∃ c', c.onDisconnectRequest tuple = some c' ∧ Does c .quiet c' := by
  rw [FPersistentConnection.onDisconnectRequest]
  split
  next hc =>
    have hconnected : c.connected = true := decide_eq_true (Or.inr (of_decide_eq_true hc))
    obtain ⟨c', hc', hsends⟩ := sends_sendOnDisconnectAction (h.online hconnected) tuple
    refine ⟨c', hc', Inv.quiet ?_ ?_⟩
    · exact h.sends hconnected hsends fun _ _ _ => of_decide_eq_true hc
    · exact hsends.delivery_eq h.pending (silent_singleton rfl rfl rfl)
  next =>
    refine ⟨_, rfl, Inv.quiet ?_ rfl⟩
    exact h.congr rfl

/-- A new token does not trap. -/
theorem Inv.refreshAuthToken (h : Inv c) (token : Option String) :
    ∃ c', c.refreshAuthToken token = some c' ∧ Does c .quiet c' := by
  have hrefreshed : Inv { c with authToken := token } :=
    h.congr rfl
  rw [FPersistentConnection.refreshAuthToken]
  cases token with
  | none =>
    obtain ⟨c', hc', hinv, -, hdelivery⟩ := hrefreshed.quiet_if (c.connected = true) silent_nil id
      fun _ honline => sends_sendAction_none honline .unauth rfl
    exact ⟨c', hc', hinv.quiet hdelivery⟩
  | some credential =>
    obtain ⟨c', hc', hinv, -, hdelivery⟩ := hrefreshed.quiet_if (c.connected = true)
      (silent_singleton rfl rfl rfl) id fun hc honline => sends_sendAuth honline hc rfl false
    exact ⟨c', hc', hinv.quiet hdelivery⟩

/-- Purging cancels the outstanding puts. -/
theorem Inv.purgeOutstandingWrites (h : Inv c) : Does c .purge c.purgeOutstandingWrites := by
  obtain ⟨hsorted, hlt, hunacked, -, -, hwaiting⟩ := h.pending
  refine ⟨⟨⟨hsorted, hlt, hunacked, SortedAssoc.sorted_nil, fun _ he => by contradiction, ?_⟩,
    h.reconnects.congr rfl rfl rfl rfl rfl, h.realtime, h.waiting, h.puts_connected⟩, trivial, ?_⟩
  · exact fun index b hmem => ⟨(hwaiting index b hmem).1, fun _ hb => by contradiction⟩
  · refine Delivery.ext rfl ?_ rfl rfl rfl rfl rfl rfl
    simp [FPersistentConnection.purgeOutstandingWrites, ackPuts, delivery, Delivery.apply,
      Delivery.purged, Delivery.release, putBlocks, List.filterMap_map, Function.comp_def,
      Call.putBlock]

variable [DecidableEq Params]

/-- A listen for another query, which can be listened to, does not trap. -/
theorem Inv.listen (h : Inv c) {query : FQuerySpec Params}
    (hquery : ∀ outstanding ∈ c.listens, outstanding.query ≠ query)
    (hlisten : query.canListen = true) (tagId : Option ℕ) (onComplete : Block) :
    ∃ c', c.listen query tagId onComplete = some c' ∧
      Does c (if c.connected then .listen else .quiet) c' := by
  have hlistened : ∀ listens listenCounter, Inv { c with listens, listenCounter } :=
    fun _ _ => h.congr rfl
  let outstanding : FOutstandingQuery Params Block :=
    ⟨c.listenCounter, query, tagId, onComplete, hlisten⟩
  have hadded := hlistened (c.listens ++ [outstanding]) (c.listenCounter + 1)
  rw [FPersistentConnection.listen, if_neg (by simpa using hquery), dif_pos hlisten]
  by_cases hc : c.connected = true
  · obtain ⟨c', hc', hsends⟩ := sends_sendListen (hadded.online hc) outstanding
    rw [if_pos hc]
    refine ⟨c', (if_pos hc).trans hc', ?_, trivial, ?_⟩
    · refine hadded.sends hc hsends fun block hblock hput => ?_
      rw [List.mem_singleton.mp hblock] at hput
      contradiction
    · rw [hsends.delivery hadded.pending]
      exact Delivery.ext rfl rfl rfl rfl rfl (List.append_nil _) rfl rfl
  · rw [if_neg hc]
    exact ⟨_, if_neg hc, hadded.quiet rfl⟩

/-- An unlisten for a query that can be listened to does not trap. -/
theorem Inv.unlisten (h : Inv c) {query : FQuerySpec Params} (hlisten : query.canListen = true)
    (tagId : Option ℕ) :
    ∃ c', c.unlisten query tagId = some c' ∧ Does c .quiet c' := by
  have hunlistened : ∀ listens, Inv { c with listens } :=
    fun _ => h.congr rfl
  rw [FPersistentConnection.unlisten, removeListen, if_pos hlisten, Option.bind_some]
  obtain ⟨c', hc', hinv, -, hdelivery⟩ :=
    (hunlistened (c.listens.filter fun outstanding => outstanding.query ≠ query)).quiet_if
      ((c.listens.any fun outstanding => outstanding.query = query) = true ∧ c.connected = true)
      silent_nil And.right
      fun _ honline => sends_sendAction_none honline (.unlisten query tagId) rfl
  exact ⟨c', hc', hinv.quiet hdelivery⟩

/-! ## Runs -/

/-- The event is not a second listen for a query, nor a listen or unlisten for a query that cannot
be listened to, nor an error that the server reports. -/
def Event.Accepted (c : FPersistentConnection Params Data Block) :
    Event Params Data Block → Prop
  | listen query _ _ =>
    (∀ outstanding ∈ c.listens, outstanding.query ≠ query) ∧ query.canListen = true
  | unlisten query _ => query.canListen = true
  | message (.error _) => False
  | _ => True

/-- A step keeps the invariant and does for puts what its operation does, and it does not trap
unless the event is not accepted. -/
theorem step_spec (h : Inv c) (e : Event Params Data Block) (he : e.Accepted c) :
    ∃ c', step c e = some c' ∧ Does c (c.op e) c' := by
  cases e with
  | interruptForReason reason => exact h.interruptForReason reason
  | resumeForReason reason => exact h.resumeForReason reason
  | refreshAuthToken token => exact h.refreshAuthToken token
  | listen query tagId onComplete => exact h.listen he.1 he.2 tagId onComplete
  | unlisten query tagId => exact h.unlisten he tagId
  | put action request onComplete => exact h.putInternal action request onComplete
  | onDisconnect tuple => exact h.onDisconnectRequest tuple
  | purgeOutstandingWrites => exact ⟨_, rfl, h.purgeOutstandingWrites⟩
  | elapse time =>
    refine ⟨_, rfl, Inv.quiet ?_ rfl⟩
    exact h.congr rfl
  | retryTimer => exact h.retryTimer
  | tokenFetched j result => exact h.tokenFetched j result
  | enteringForeground => exact h.enteringForeground
  | handshake => exact h.onHandshake
  | message message =>
    refine h.onDataMessage message fun error herror => ?_
    rw [herror] at he
    exact he
  | connectionLost => exact h.closeWithReason .other
  | reset => exact h.closeWithReason .serverReset
  | shutdown =>
    by_cases hrealtime : c.realtime.isSome = true
    · obtain ⟨c', hc', hdoes⟩ := h.interruptForReason "server_kill"
      exact ⟨c', (if_pos hrealtime).trans hc', hdoes⟩
    · refine ⟨c, if_neg hrealtime, ?_⟩
      rw [op, closes, if_neg hrealtime]
      exact h.quiet rfl

/-- An event that is not accepted traps. -/
theorem step_eq_none_of_not_accepted {e : Event Params Data Block} (he : ¬e.Accepted c) :
    step c e = none := by
  cases e with
  | listen query tagId onComplete =>
    rw [step, FPersistentConnection.listen]
    split
    next => rfl
    next hnew => exact dif_neg fun hlisten => he ⟨by simpa using hnew, hlisten⟩
  | unlisten query tagId =>
    have hlisten : ¬ query.canListen = true := he
    rw [step, FPersistentConnection.unlisten, removeListen, if_neg hlisten, Option.bind_none]
  | message message =>
    cases message with
    | error error => rfl
    | _ => exact absurd trivial he
  | _ => exact absurd trivial he

/-- Exactly the accepted events do not trap. -/
theorem isSome_step_iff (h : Inv c) (e : Event Params Data Block) :
    (step c e).isSome = true ↔ e.Accepted c := by
  constructor
  · intro hsome
    by_contra he
    rw [step_eq_none_of_not_accepted he] at hsome
    contradiction
  · intro he
    obtain ⟨c', hc', -⟩ := step_spec h e he
    rw [hc', Option.isSome_some]

/-- A step does for puts what its operation does. -/
theorem Inv.does (h : Inv c) {e : Event Params Data Block} (hc' : step c e = some c') :
    Does c (c.op e) c' := by
  have he : e.Accepted c := (isSome_step_iff h e).mp (by rw [hc', Option.isSome_some])
  obtain ⟨c'', hc'', hdoes⟩ := step_spec h e he
  rw [hc'] at hc''
  rwa [Option.some.inj hc'']

/-- Along every run the connection traps exactly where the server reports an error, a query is
listened to twice, or one is listened or unlistened to that loads all data and is not default; its
counter of unanswered listens is right, and it does not stay disconnected: if nothing interrupts it
a retry is scheduled, and while it fetches a token that fetch is unanswered. -/
theorem along_reconnects (es : List (Event Params Data Block)) :
    step.Along
      (fun c => (∀ e, (FPersistentConnection.step c e).isSome = true ↔ e.Accepted c) ∧
        c.unackedListensCount = c.requestCBHash.countP (·.2.isListen) ∧ Reconnects c)
      init es :=
  PartialStep.along_of_inv
    (fun _ h => ⟨fun e => isSome_step_iff h e, h.pending.unacked.trans List.countP_map,
      h.reconnects⟩)
    (fun _ _ _ h hc' => (h.does hc').inv) es inv_init

end FPersistentConnection

end Database
