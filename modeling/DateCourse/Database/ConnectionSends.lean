import DateCourse.Database.Delivery
import DateCourse.Database.PersistentConnection

/-!
# Sending over a connection

What it means to send requests: they get numbers in ascending order, and the blocks that wait for
the answers know the puts they are about. What a connection does for puts is read off its state.
When the state is restored on a new connection, the listens are sent, then the outstanding puts in
their order, then what is queued for disconnects.

## Main definitions

* `FPersistentConnection.delivery`: what a connection does for puts;
* `FPersistentConnection.Pending`: the requests that wait for answers, and the puts they are about;
* `FPersistentConnection.Sends`: what sending requests does to a connection.

## Main results

* `FPersistentConnection.Sends.delivery`: what sending does for puts;
* `FPersistentConnection.restoreState_spec`: what restoring the state sends.
-/

namespace Database

/-- The put that a request is about. -/
def Request.putIndex {Params Data : Type*} : Request Params Data → Option ℕ
  | .put index _ _ => some index
  | _ => none

namespace ResponseBlock

variable {Params Block : Type*} [FQueryParams Params]

/-- The block waits for the answer to a listen. -/
def isListen : ResponseBlock Params Block → Bool
  | .listen _ => true
  | _ => false

/-- The put that the answer is about. -/
def putIndex : ResponseBlock Params Block → Option ℕ
  | .put index _ => some index
  | _ => none

/-- The block waits for an authentication after which the state is restored. -/
def restoring : ResponseBlock Params Block → Bool
  | .auth restoreStateAfterComplete => restoreStateAfterComplete
  | _ => false

end ResponseBlock

/-- The completion block of a put that is called. -/
def Call.putBlock {Block : Type*} : Call Block → Option Block
  | .put block _ _ => some block
  | _ => none

/-- How far a client has come in each state. -/
def ConnectionState.phase : ConnectionState → Phase
  | .disconnected | .gettingToken | .connecting => .offline
  | .authenticating => .authenticating
  | .connected => .connected

namespace FPersistentConnection

variable {Params Data Block : Type*} [FQueryParams Params]
  {c c' c'' : FPersistentConnection Params Data Block}

/-! ## Requests and puts -/

/-- The numbers of the outstanding puts with their completion blocks. -/
def putBlocks (c : FPersistentConnection Params Data Block) : List (ℕ × Block) :=
  c.outstandingPuts.map fun e => (e.1, e.2.onCompleteBlock)

/-- The blocks that wait for answers, in the order of their requests. -/
def waitingBlocks (c : FPersistentConnection Params Data Block) :
    List (ResponseBlock Params Block) :=
  c.requestCBHash.map (·.2)

/-- The puts that have been sent over the connection that is in use. -/
def sentPuts (c : FPersistentConnection Params Data Block) : List ℕ :=
  ((c.realtime.map (·.sent)).getD []).filterMap (·.2.putIndex)

/-- What the connection does for puts. -/
def delivery (c : FPersistentConnection Params Data Block) : Delivery Block where
  phase := c.connectionState.phase
  answered := c.called.filterMap Call.putBlock
  held := c.putsToAck.map (·.block)
  outstanding := c.putBlocks
  counter := c.putCounter
  sent := c.sentPuts
  listens := c.unackedListensCount
  auths := c.waitingBlocks.countP (·.restoring)

/-- The blocks that wait for answers are those of requests that have been made, and know the puts
they are about; the counter counts those of listens. -/
structure Pending (c : FPersistentConnection Params Data Block) : Prop where
  requests_sorted : SortedAssoc.Sorted c.requestCBHash
  requests_lt : ∀ e ∈ c.requestCBHash, e.1 < c.requestNumber
  unacked : c.unackedListensCount = c.waitingBlocks.countP (·.isListen)
  puts_sorted : SortedAssoc.Sorted c.putBlocks
  puts_lt : ∀ e ∈ c.putBlocks, e.1 < c.putCounter
  puts_waiting : ∀ index onComplete, .put index onComplete ∈ c.waitingBlocks →
    index < c.putCounter ∧ ∀ block, (index, block) ∈ c.putBlocks → block = onComplete

/-- The outstanding puts are in the order of their indices. -/
theorem Pending.sorted_outstandingPuts (h : Pending c) :
    SortedAssoc.Sorted c.outstandingPuts :=
  List.pairwise_map.mp h.puts_sorted

/-- The block of an outstanding put. -/
theorem mem_putBlocks {index : ℕ} {put : FOutstandingPut Data Block}
    (h : (index, put) ∈ c.outstandingPuts) : (index, put.onCompleteBlock) ∈ c.putBlocks :=
  List.mem_map.mpr ⟨_, h, rfl⟩

/-- A put has one completion block. -/
theorem Pending.block_unique (h : Pending c) {index : ℕ} {b b' : Block}
    (hb : (index, b) ∈ c.putBlocks) (hb' : (index, b') ∈ c.putBlocks) : b = b' := by
  have hfind := (SortedAssoc.find_eq_some_iff h.puts_sorted).mpr hb
  rw [(SortedAssoc.find_eq_some_iff h.puts_sorted).mpr hb'] at hfind
  exact (Option.some.inj hfind).symm

/-- What is said of the pending requests depends on these fields only. -/
theorem Pending.congr (h : Pending c) (hhash : c'.requestCBHash = c.requestCBHash)
    (hnumber : c'.requestNumber = c.requestNumber)
    (hunacked : c'.unackedListensCount = c.unackedListensCount)
    (hputs : c'.putBlocks = c.putBlocks) (hcounter : c'.putCounter = c.putCounter) :
    Pending c' := by
  have hblocks : c'.waitingBlocks = c.waitingBlocks := by rw [waitingBlocks, hhash, waitingBlocks]
  obtain ⟨h₁, h₂, h₃, h₄, h₅, h₆⟩ := h
  rw [← hblocks] at h₃ h₆
  rw [← hhash] at h₁ h₂
  rw [← hputs] at h₄ h₅ h₆
  rw [← hnumber] at h₂
  rw [← hunacked] at h₃
  rw [← hcounter] at h₅ h₆
  exact ⟨h₁, h₂, h₃, h₄, h₅, h₆⟩

/-! ## Sending -/

/-- There is a connection to send over. -/
def Online (c : FPersistentConnection Params Data Block) : Prop :=
  ∃ sent, c.realtime = some ⟨.connected, sent⟩

/-- What sending requests changes: their numbers, the blocks that wait for answers, what has been
sent, the counter of listens and the marks on the puts that have been sent. -/
structure Sends (c : FPersistentConnection Params Data Block)
    (new : List (ResponseBlock Params Block)) (c' : FPersistentConnection Params Data Block) :
    Prop where
  frame : c' = { c with
    requestNumber := c'.requestNumber
    realtime := c'.realtime
    requestCBHash := c'.requestCBHash
    unackedListensCount := c'.unackedListensCount
    outstandingPuts := c'.outstandingPuts }
  online : Online c'
  pending : Pending c → Pending c'
  puts : c'.putBlocks = c.putBlocks
  waiting : Pending c → c'.waitingBlocks = c.waitingBlocks ++ new
  sent : c'.sentPuts = c.sentPuts ++ new.filterMap ResponseBlock.putIndex

/-- Sending nothing. -/
theorem Sends.refl (h : Online c) : Sends c [] c :=
  ⟨rfl, h, id, rfl, fun _ => (List.append_nil _).symm, (List.append_nil _).symm⟩

/-- Requests may be sent one after the other. -/
theorem Sends.trans {new new' : List (ResponseBlock Params Block)} (h : Sends c new c')
    (h' : Sends c' new' c'') : Sends c (new ++ new') c'' := by
  refine ⟨h'.frame.trans ?_, h'.online, h'.pending ∘ h.pending, h'.puts.trans h.puts,
    fun hpending => ?_, ?_⟩
  · rw [h.frame]
  · rw [h'.waiting (h.pending hpending), h.waiting hpending, List.append_assoc]
  · rw [h'.sent, h.sent, List.filterMap_append, List.append_assoc]

/-- Sending leaves the state of the connection alone. -/
theorem Sends.connectionState {new : List (ResponseBlock Params Block)} (h : Sends c new c') :
    c'.connectionState = c.connectionState := by
  rw [h.frame]

/-- Sending adds what is sent to what the connection does for puts. -/
theorem Sends.delivery {new : List (ResponseBlock Params Block)} (h : Sends c new c')
    (hpending : Pending c) :
    c'.delivery = { c.delivery with
      sent := c.delivery.sent ++ new.filterMap ResponseBlock.putIndex
      listens := c.delivery.listens + new.countP (·.isListen)
      auths := c.delivery.auths + new.countP (·.restoring) } := by
  have hlistens : c'.unackedListensCount = c.unackedListensCount + new.countP (·.isListen) := by
    rw [(h.pending hpending).unacked, hpending.unacked, h.waiting hpending, List.countP_append]
  have hauths := congrArg (List.countP (·.restoring)) (h.waiting hpending)
  rw [List.countP_append] at hauths
  rw [FPersistentConnection.delivery, h.sent, h.puts, hlistens, hauths, h.frame]
  rfl

/-- What is sent has nothing to do with puts, nor is it a listen. -/
def Silent (new : List (ResponseBlock Params Block)) : Prop :=
  ∀ block ∈ new, block.putIndex = none ∧ block.isListen = false ∧ block.restoring = false

/-- Nothing is silent. -/
theorem silent_nil : Silent ([] : List (ResponseBlock Params Block)) :=
  fun _ hblock => by contradiction

/-- A block is silent if it waits neither for a put nor for a listen, and restores nothing. -/
theorem silent_singleton {block : ResponseBlock Params Block} (hput : block.putIndex = none)
    (hlisten : block.isListen = false) (hrestoring : block.restoring = false) : Silent [block] := by
  intro b hb
  rw [List.mem_singleton.mp hb]
  exact ⟨hput, hlisten, hrestoring⟩

/-- Such requests do nothing for puts. -/
theorem Sends.delivery_eq {new : List (ResponseBlock Params Block)} (h : Sends c new c')
    (hpending : Pending c) (hsilent : Silent new) : c'.delivery = c.delivery := by
  have hputs : new.filterMap ResponseBlock.putIndex = [] :=
    List.filterMap_eq_nil_iff.mpr fun block hblock => (hsilent block hblock).1
  have hlistens : new.countP (·.isListen) = 0 :=
    List.countP_eq_zero.mpr fun block hblock => by simp [(hsilent block hblock).2.1]
  have hauths : new.countP (·.restoring) = 0 :=
    List.countP_eq_zero.mpr fun block hblock => by simp [(hsilent block hblock).2.2]
  rw [h.delivery hpending, hputs, hlistens, hauths, List.append_nil]
  rfl

/-- The answer to a new request is waited for. -/
theorem Pending.add (h : Pending c) (realtime : Option (FConnection Params Data))
    (block : ResponseBlock Params Block)
    (hblock : ∀ index onComplete, block = .put index onComplete → index < c.putCounter ∧
      ∀ b, (index, b) ∈ c.putBlocks → b = onComplete) :
    Pending { c with
      requestNumber := c.requestNumber + 1
      realtime := realtime
      requestCBHash := SortedAssoc.insert c.requestCBHash c.requestNumber block
      unackedListensCount := c.unackedListensCount + if block.isListen then 1 else 0 } ∧
    (SortedAssoc.insert c.requestCBHash c.requestNumber block).map (·.2) =
      c.waitingBlocks ++ [block] := by
  obtain ⟨hsorted, hlt, hunacked, hputs, hputsLt, hwaiting⟩ := h
  have hinsert : (SortedAssoc.insert c.requestCBHash c.requestNumber block).map (·.2) =
      c.waitingBlocks ++ [block] := by
    rw [SortedAssoc.insert_of_gt (fun e he => Nat.compare_eq_gt.mpr (hlt e he)), List.map_append]
    rfl
  refine ⟨⟨hsorted.insert _ _, ?_, ?_, hputs, hputsLt, ?_⟩, hinsert⟩
  · intro e he
    rcases SortedAssoc.mem_insert he with rfl | he
    · exact Nat.lt_succ_self _
    · exact Nat.lt_succ_of_lt (hlt e he)
  · dsimp only [waitingBlocks]
    rw [hinsert, List.countP_append, hunacked, List.countP_singleton]
  · intro index onComplete hmem
    replace hmem : .put index onComplete ∈ c.waitingBlocks ++ [block] := hinsert ▸ hmem
    rcases List.mem_append.mp hmem with hmem | hmem
    · exact hwaiting index onComplete hmem
    · exact hblock index onComplete (List.mem_singleton.mp hmem).symm

/-- Over a connection a request is sent under the next number. -/
theorem sendAction_of_online {sent : List (ℕ × Request Params Data)}
    (h : c.realtime = some ⟨.connected, sent⟩) (request : Request Params Data)
    (onMessage : Option (ResponseBlock Params Block)) :
    c.sendAction request onMessage = some { c with
      requestNumber := c.requestNumber + 1
      realtime := some ⟨.connected, sent ++ [(c.requestNumber, request)]⟩
      requestCBHash := onMessage.elim c.requestCBHash
        fun block => SortedAssoc.insert c.requestCBHash c.requestNumber block } := by
  simp [sendAction, h, FConnection.sendRequest]

/-- One more request has been sent. -/
theorem sentPuts_append {sent : List (ℕ × Request Params Data)} {rn : ℕ}
    {request : Request Params Data} (h : c.realtime = some ⟨.connected, sent⟩)
    (h' : c'.realtime = some ⟨.connected, sent ++ [(rn, request)]⟩) :
    c'.sentPuts = c.sentPuts ++ [request].filterMap Request.putIndex := by
  rw [sentPuts, sentPuts, h, h']
  simp [List.filterMap_cons]

/-- Sending a request whose answer is waited for. -/
theorem sends_sendAction (h : Online c) (request : Request Params Data)
    (block : ResponseBlock Params Block) (hrequest : request.putIndex = block.putIndex)
    (hlisten : block.isListen = false)
    (hblock : ∀ index onComplete, block = .put index onComplete → Pending c →
      index < c.putCounter ∧ ∀ b, (index, b) ∈ c.putBlocks → b = onComplete) :
    ∃ c', c.sendAction request (some block) = some c' ∧ Sends c [block] c' := by
  obtain ⟨sent, hsent⟩ := h
  have hadd := fun hpending : Pending c => hpending.add
    (some ⟨.connected, sent ++ [(c.requestNumber, request)]⟩) block
    fun index onComplete hput => hblock index onComplete hput hpending
  refine ⟨_, sendAction_of_online hsent _ _, rfl, ⟨_, rfl⟩, fun hpending => ?_, rfl,
    fun hpending => (hadd hpending).2, ?_⟩
  · simpa [hlisten] using (hadd hpending).1
  · rw [sentPuts_append hsent rfl]
    simp [List.filterMap_cons, hrequest]

/-- Sending a request that is not answered. -/
theorem sends_sendAction_none (h : Online c) (request : Request Params Data)
    (hrequest : request.putIndex = none) :
    ∃ c', c.sendAction request none = some c' ∧ Sends c [] c' := by
  obtain ⟨sent, hsent⟩ := h
  refine ⟨_, sendAction_of_online hsent _ _, rfl, ⟨_, rfl⟩, fun hpending => ?_, rfl,
    fun _ => (List.append_nil _).symm, ?_⟩
  · obtain ⟨hsorted, hlt, hunacked, hputs, hputsLt, hwaiting⟩ := hpending
    exact ⟨hsorted, fun e he => Nat.lt_succ_of_lt (hlt e he), hunacked, hputs, hputsLt, hwaiting⟩
  · rw [sentPuts_append hsent rfl]
    simp [hrequest]

/-- Sending a listen waits for its answer. -/
theorem sends_sendListen (h : Online c) (listenSpec : FOutstandingQuery Params Block) :
    ∃ c', c.sendListen listenSpec = some c' ∧ Sends c [.listen listenSpec] c' := by
  obtain ⟨sent, hsent⟩ := h
  have hadd := fun hpending : Pending c => hpending.add
    (some ⟨.connected, sent ++ [(c.requestNumber, .listen listenSpec.query listenSpec.tagId)]⟩)
    (.listen listenSpec) fun _ _ hput => by contradiction
  refine ⟨_, congrArg (Option.map _) (sendAction_of_online hsent _ _), rfl, ⟨_, rfl⟩,
    fun hpending => (hadd hpending).1, rfl, fun hpending => (hadd hpending).2, ?_⟩
  rw [sentPuts_append hsent rfl]
  rfl

/-- Sending a token waits for its answer. -/
theorem sends_sendAuth (h : Online c) (hc : c.connected = true) {credential : String}
    (htoken : c.authToken = some credential) (restoreStateAfterComplete : Bool) :
    ∃ c', c.sendAuth restoreStateAfterComplete = some c' ∧
      Sends c [.auth restoreStateAfterComplete] c' := by
  rw [sendAuth, if_pos hc, htoken, Option.bind_some]
  exact sends_sendAction h _ _ rfl rfl fun _ _ hput => by contradiction

/-- Sending a request for when the connection is lost waits for its answer. -/
theorem sends_sendOnDisconnectAction (h : Online c) (tuple : FTupleOnDisconnect Data Block) :
    ∃ c', c.sendOnDisconnectAction tuple = some c' ∧
      Sends c [.onDisconnect tuple.onComplete] c' :=
  sends_sendAction h _ _ rfl rfl fun _ _ hput => by contradiction

/-- Marking a put as sent. -/
theorem sends_mark (h : Online c) (hpending : Pending c) {index : ℕ}
    {put : FOutstandingPut Data Block}
    (hfind : SortedAssoc.find c.outstandingPuts index = some put) :
    Sends c [] { c with
      outstandingPuts :=
        SortedAssoc.insert c.outstandingPuts index { put with sent := true } } := by
  have hputs := SortedAssoc.map_insert_of_find FOutstandingPut.onCompleteBlock
    hpending.sorted_outstandingPuts hfind (w := { put with sent := true }) rfl
  exact ⟨rfl, h, fun hpending => hpending.congr rfl rfl rfl hputs rfl, hputs,
    fun _ => (List.append_nil _).symm, (List.append_nil _).symm⟩

/-- Sending an outstanding put waits for its answer. -/
theorem sends_sendPut (h : Online c) (hc : c.connectionState = .connected) (hpending : Pending c)
    {index : ℕ} {onComplete : Block} (hindex : (index, onComplete) ∈ c.putBlocks) :
    ∃ c', c.sendPut index = some c' ∧ Sends c [.put index onComplete] c' := by
  have hwrites : c.canSendWrites = true := decide_eq_true hc
  obtain ⟨⟨_, put⟩, hmem, heq⟩ := List.mem_map.mp hindex
  obtain ⟨rfl, rfl⟩ := Prod.mk.inj heq
  have hfind := (SortedAssoc.find_eq_some_iff hpending.sorted_outstandingPuts).mpr hmem
  have hmark := sends_mark h hpending hfind
  rw [← hmark.puts] at hindex
  obtain ⟨c', hc', hsends⟩ := sends_sendAction hmark.online
    (.put _ put.action put.request) (.put _ put.onCompleteBlock) rfl rfl
    (fun index onComplete hput hpending => by
      obtain ⟨rfl, rfl⟩ := ResponseBlock.put.inj hput
      refine ⟨hpending.puts_lt _ hindex, fun block hmem => ?_⟩
      exact hpending.block_unique hmem hindex)
  refine ⟨c', ?_, hmark.trans hsends⟩
  rw [sendPut, if_pos hwrites, hfind, Option.bind_some]
  exact hc'

/-- Sending one request after the other. -/
theorem sends_exec {α : Type*} (send : PartialStep (FPersistentConnection Params Data Block) α)
    (block : α → ResponseBlock Params Block) (l : List α)
    (h : ∀ a ∈ l, ∀ new s, Sends c new s → ∃ s', send s a = some s' ∧ Sends s [block a] s')
    {new : List (ResponseBlock Params Block)} {s : FPersistentConnection Params Data Block}
    (hs : Sends c new s) :
    ∃ s', PartialStep.exec send s l = some s' ∧ Sends c (new ++ l.map block) s' := by
  induction l generalizing new s with
  | nil => exact ⟨s, rfl, by rwa [List.map_nil, List.append_nil]⟩
  | cons a l ih =>
    obtain ⟨s₁, hs₁, hsends⟩ := h a List.mem_cons_self new s hs
    obtain ⟨s', hs', hsends'⟩ :=
      ih (fun a ha => h a (List.mem_cons_of_mem _ ha)) (hs.trans hsends)
    refine ⟨s', ?_, ?_⟩
    · rw [PartialStep.exec_cons, hs₁]
      exact hs'
    · rwa [List.append_assoc] at hsends'

/-- What is sent when the state is restored. -/
def restored (c : FPersistentConnection Params Data Block) : List (ResponseBlock Params Block) :=
  c.listens.map .listen ++ c.putBlocks.map (fun e => .put e.1 e.2) ++
    c.onDisconnectQueue.map fun tuple => .onDisconnect tuple.onComplete

/-- Restoring the state sends each listen once. -/
theorem countP_isListen_restored (c : FPersistentConnection Params Data Block) :
    c.restored.countP (·.isListen) = c.listens.length := by
  simp [restored, List.countP_map, Function.comp_def, ResponseBlock.isListen]

/-- Restoring the state sends no token. -/
theorem countP_restoring_restored (c : FPersistentConnection Params Data Block) :
    c.restored.countP (·.restoring) = 0 := by
  simp [restored, List.countP_map, Function.comp_def, ResponseBlock.restoring]

/-- Restoring the state sends each outstanding put once. -/
theorem filterMap_putIndex_restored (c : FPersistentConnection Params Data Block) :
    c.restored.filterMap ResponseBlock.putIndex = c.putBlocks.map (·.1) := by
  simp [restored, List.filterMap_map, Function.comp_def, ResponseBlock.putIndex]

/-- Restoring the state sends the listens, the outstanding puts and the queue, and empties the
queue. -/
theorem restoreState_spec (h : Online c) (hc : c.connectionState = .connected)
    (hpending : Pending c) :
    ∃ c₁, Sends c c.restored c₁ ∧
      c.restoreState = some { c₁ with onDisconnectQueue := [] } := by
  obtain ⟨c₁, hc₁, hsends₁⟩ := sends_exec (c := c) sendListen .listen c.listens
    (fun listenSpec _ new s hs => sends_sendListen hs.online listenSpec) (Sends.refl h)
  -- a put is looked up by its number, and the block that waits is its own
  obtain ⟨c₂, hc₂, hsends₂⟩ := sends_exec (c := c) (fun c e => sendPut c e.1)
    (fun e : ℕ × Block => .put e.1 e.2) c.putBlocks (fun e he new s hs => by
      refine sends_sendPut hs.online (hs.connectionState.trans hc) (hs.pending hpending) ?_
      rw [hs.puts]
      exact he) hsends₁
  have hqueue : c₂.onDisconnectQueue = c.onDisconnectQueue := by rw [hsends₂.frame]
  obtain ⟨c₃, hc₃, hsends₃⟩ := sends_exec (c := c) sendOnDisconnectAction
    (fun tuple => .onDisconnect tuple.onComplete) c.onDisconnectQueue
    (fun tuple _ new s hs => sends_sendOnDisconnectAction hs.online tuple) hsends₂
  have hputs : PartialStep.exec sendPut c₁ (c₁.outstandingPuts.map (·.1)) = some c₂ := by
    have hkeys : c₁.outstandingPuts.map (·.1) = c.putBlocks.map (·.1) := by
      rw [← hsends₁.puts, putBlocks, List.map_map]
      rfl
    rw [hkeys, PartialStep.exec_map]
    exact hc₂
  refine ⟨c₃, hsends₃, ?_⟩
  rw [restoreState, if_pos hc, hc₁, Option.bind_some, hputs, Option.bind_some, hqueue, hc₃,
    Option.map_some]

end FPersistentConnection

end Database
