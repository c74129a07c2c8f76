import DateCourse.Database.RetryHelper
import DateCourse.Machine.Run
import DateCourse.Store.SortedAssoc
import Mathlib.Data.Finset.Insert
import Mathlib.Order.Compare

/-!
# The connection to the server

An `FPersistentConnection` keeps what a client asks of the server across connections that come and
go. Puts are outstanding until they are answered, and all outstanding ones are sent again on each
new connection. The answers to puts are held back as long as a listen is unanswered. Everything that
can happen is an event of one machine, in any order: the client's requests, the answers and other
messages of the server, tokens that have been fetched, lost connections and timers.

Callers always pass completion blocks, and a block that is called is recorded, in order. The state
has the clock as a field, and a connection records what has been sent over it.

## Main definitions

* `FPersistentConnection` with the functions that the events call;
* `FPersistentConnection.step`: the connection as a machine.
-/

namespace Database

/-- `ConnectionState`. -/
inductive ConnectionState
  | disconnected
  | gettingToken
  | connecting
  | authenticating
  | connected
  deriving DecidableEq

/-- `FConnectionState`. -/
inductive FConnectionState
  | connecting
  | connected
  | disconnected
  deriving DecidableEq

/-- `FDisconnectReason`. -/
inductive FDisconnectReason
  | serverReset
  | other
  deriving DecidableEq

/-- The action of a put: `kFWPRequestActionPut` or `kFWPRequestActionMerge`. -/
inductive PutAction
  | put
  | merge

/-- The action of an `FTupleOnDisconnect`. -/
inductive OnDisconnectAction
  | put
  | merge
  | cancel

/-- What the connection asks of `FQueryParams`. -/
class FQueryParams (Params : Type*) where
  isDefault : Params → Bool
  loadsAllData : Params → Bool

/-- Default parameters only. -/
instance : FQueryParams Unit := ⟨fun _ => true, fun _ => true⟩

/-- `FQuerySpec`. -/
structure FQuerySpec (Params : Type*) where
  path : String
  params : Params
  deriving DecidableEq

/-- What is asserted of a query that is listened to: it is not a complete one other than the default
one. -/
def FQuerySpec.canListen {Params : Type*} [FQueryParams Params] (query : FQuerySpec Params) :
    Bool :=
  FQueryParams.isDefault query.params || !FQueryParams.loadsAllData query.params

/-- The request of a put: its path, data and, for a transaction, hash. -/
structure PutRequest (Data : Type*) where
  path : String
  data : Data
  hash : Option String

/-- `FOutstandingPut`. -/
structure FOutstandingPut (Data Block : Type*) where
  action : PutAction
  request : PutRequest Data
  onCompleteBlock : Block
  sent : Bool

/-- `FOutstandingQuery`. Objects for the same query that were made at different times are told apart
by their `id`. They are only made where the assertions of `listen:` hold. -/
structure FOutstandingQuery (Params Block : Type*) [FQueryParams Params] where
  id : ℕ
  query : FQuerySpec Params
  tagId : Option ℕ
  onComplete : Block
  canListen : query.canListen = true

/-- `FTupleOnDisconnect`. No data stands for `NSNull`. -/
structure FTupleOnDisconnect (Data Block : Type*) where
  pathString : String
  action : OnDisconnectAction
  data : Option Data
  onComplete : Block

/-- `FTupleCallbackStatus`. -/
structure FTupleCallbackStatus (Block : Type*) where
  block : Block
  status : Option String
  errorReason : Option String

/-- What a request says. The index of a put is not part of its message. -/
inductive Request (Params Data : Type*)
  | stats
  | auth (credential : String)
  | unauth
  | listen (query : FQuerySpec Params) (tagId : Option ℕ)
  | unlisten (query : FQuerySpec Params) (tagId : Option ℕ)
  | put (index : ℕ) (action : PutAction) (request : PutRequest Data)
  | onDisconnect (action : OnDisconnectAction) (pathString : String) (data : Option Data)

/-- The blocks that wait for the answer to a request. -/
inductive ResponseBlock (Params Block : Type*) [FQueryParams Params]
  | auth (restoreStateAfterComplete : Bool)
  | put (index : ℕ) (onComplete : Block)
  | listen (listenSpec : FOutstandingQuery Params Block)
  | onDisconnect (onComplete : Block)
  | stats

/-- A call of a completion block. -/
inductive Call (Block : Type*)
  | put (block : Block) (status errorReason : Option String)
  | listen (block : Block) (status : Option String)
  | onDisconnect (block : Block) (status errorReason : Option String)

/-- `FConnection`, with the requests that have been sent over it and their numbers. -/
structure FConnection (Params Data : Type*) where
  state : FConnectionState
  sent : List (ℕ × Request Params Data)

/-- `sendRequest:sensitive:`. -/
def FConnection.sendRequest {Params Data : Type*} (conn : FConnection Params Data)
    (message : ℕ × Request Params Data) : Option (FConnection Params Data) :=
  if conn.state = .connected then some { conn with sent := conn.sent ++ [message] } else none

/-- `FPersistentConnection`. -/
structure FPersistentConnection (Params Data Block : Type*) [FQueryParams Params] where
  connectionState : ConnectionState
  firstConnection : Bool
  date : ℚ
  lastConnectionEstablishedTime : ℚ
  realtime : Option (FConnection Params Data)
  listens : List (FOutstandingQuery Params Block)
  listenCounter : ℕ
  outstandingPuts : List (ℕ × FOutstandingPut Data Block)
  onDisconnectQueue : List (FTupleOnDisconnect Data Block)
  putCounter : ℕ
  requestNumber : ℕ
  requestCBHash : List (ℕ × ResponseBlock Params Block)
  unackedListensCount : ℕ
  putsToAck : List (FTupleCallbackStatus Block)
  interruptReasons : Finset String
  retryHelper : FIRRetryHelper Bool
  authToken : Option String
  forceAuthTokenRefresh : Bool
  currentFetchTokenAttempt : ℕ
  /-- The attempts to fetch a token that have not been answered. -/
  fetches : List ℕ
  called : List (Call Block)

namespace FPersistentConnection

variable {Params Data Block : Type*} [FQueryParams Params]

/-- `initWithRepoInfo:dispatchQueue:config:`; the connection is interrupted until it is opened. -/
def init : FPersistentConnection Params Data Block where
  connectionState := .disconnected
  firstConnection := true
  date := 0
  lastConnectionEstablishedTime := 0
  realtime := none
  listens := []
  listenCounter := 0
  outstandingPuts := []
  onDisconnectQueue := []
  putCounter := 1
  requestNumber := 1
  requestCBHash := []
  unackedListensCount := 0
  putsToAck := []
  interruptReasons := {"waiting_for_open"}
  -- the delays, their factor and the jitter are constants of the source
  retryHelper := .ofConnection
  authToken := none
  forceAuthTokenRefresh := false
  currentFetchTokenAttempt := 0
  fetches := []
  called := []

/-- `connected`. -/
def connected (c : FPersistentConnection Params Data Block) : Bool :=
  c.connectionState = .authenticating ∨ c.connectionState = .connected

/-- `canSendWrites`. -/
def canSendWrites (c : FPersistentConnection Params Data Block) : Bool :=
  c.connectionState = .connected

/-- `shouldReconnect`. -/
def shouldReconnect (c : FPersistentConnection Params Data Block) : Bool :=
  c.interruptReasons = ∅

/-! ## Sending -/

/-- `sendAction:body:sensitive:callback:`. -/
def sendAction (c : FPersistentConnection Params Data Block) (request : Request Params Data)
    (onMessage : Option (ResponseBlock Params Block)) :
    Option (FPersistentConnection Params Data Block) :=
  let rn := c.requestNumber
  let requestCBHash :=
    onMessage.elim c.requestCBHash fun block => SortedAssoc.insert c.requestCBHash rn block
  let c := { c with requestNumber := rn + 1, requestCBHash }
  -- the callback is kept even if there is no connection to send over
  match c.realtime with
  | some conn => (conn.sendRequest (rn, request)).map fun conn => { c with realtime := some conn }
  -- a message to no connection is dropped
  | none => some c

/-- `sendListen:`. -/
def sendListen (c : FPersistentConnection Params Data Block)
    (listenSpec : FOutstandingQuery Params Block) :
    Option (FPersistentConnection Params Data Block) :=
  (c.sendAction (.listen listenSpec.query listenSpec.tagId) (some (.listen listenSpec))).map
    fun c => { c with unackedListensCount := c.unackedListensCount + 1 }

/-- `sendPut:`. -/
def sendPut (c : FPersistentConnection Params Data Block) (index : ℕ) :
    Option (FPersistentConnection Params Data Block) :=
  if c.canSendWrites then
    (SortedAssoc.find c.outstandingPuts index).bind fun put =>
      -- a put counts as sent once it is given to the connection
      let outstandingPuts := SortedAssoc.insert c.outstandingPuts index { put with sent := true }
      sendAction { c with outstandingPuts } (.put index put.action put.request)
        (some (.put index put.onCompleteBlock))
  else none

/-- `sendOnDisconnectAction:forPath:withData:andCallback:`. -/
def sendOnDisconnectAction (c : FPersistentConnection Params Data Block)
    (tuple : FTupleOnDisconnect Data Block) : Option (FPersistentConnection Params Data Block) :=
  c.sendAction (.onDisconnect tuple.action tuple.pathString tuple.data)
    (some (.onDisconnect tuple.onComplete))

/-- `sendAuthAndRestoreStateAfterComplete:`. -/
def sendAuth (c : FPersistentConnection Params Data Block) (restoreStateAfterComplete : Bool) :
    Option (FPersistentConnection Params Data Block) :=
  if c.connected then
    -- without a token an assertion fails
    c.authToken.bind fun credential =>
      c.sendAction (.auth credential) (some (.auth restoreStateAfterComplete))
  else none

/-- `restoreState`. A dictionary enumerates its entries in no particular order, which here is the
one in which they were added. -/
def restoreState (c : FPersistentConnection Params Data Block) :
    Option (FPersistentConnection Params Data Block) :=
  if c.connectionState = .connected then
    (PartialStep.exec sendListen c c.listens).bind fun c =>
      -- the keys are sorted
      (PartialStep.exec sendPut c (c.outstandingPuts.map (·.1))).bind fun c =>
        (PartialStep.exec sendOnDisconnectAction c c.onDisconnectQueue).map fun c =>
          { c with onDisconnectQueue := [] }
  else none

/-- `restoreAuth`. -/
def restoreAuth (c : FPersistentConnection Params Data Block) :
    Option (FPersistentConnection Params Data Block) :=
  if c.connectionState = .connecting then
    -- writes have to wait for the answer to an authentication
    if c.authToken.isNone then restoreState { c with connectionState := .connected }
    else sendAuth { c with connectionState := .authenticating } true
  else none

/-! ## Connecting -/

/-- `tryScheduleReconnect`. The block that is to be executed is told whether to force a refresh. -/
def tryScheduleReconnect (c : FPersistentConnection Params Data Block) :
    Option (FPersistentConnection Params Data Block) :=
  if c.shouldReconnect then
    if c.connectionState = .disconnected then
      some { c with
        -- a refresh is forced once
        forceAuthTokenRefresh := false
        retryHelper := c.retryHelper.retry c.forceAuthTokenRefresh }
    else none
  else some c

/-- The block of `tryScheduleReconnect` that fetches a token. -/
def retryBlock (c : FPersistentConnection Params Data Block) :
    Option (FPersistentConnection Params Data Block) :=
  if c.connectionState = .disconnected then
    some { c with
      connectionState := .gettingToken
      currentFetchTokenAttempt := c.currentFetchTokenAttempt + 1
      fetches := c.fetches ++ [c.currentFetchTokenAttempt + 1] }
  else none

/-- The delay of the scheduled retry is over; a cancelled one does nothing. -/
def retryTimer (c : FPersistentConnection Params Data Block) :
    Option (FPersistentConnection Params Data Block) :=
  if c.retryHelper.scheduledRetry.isSome then
    retryBlock { c with retryHelper := c.retryHelper.elapse }
  else some c

/-- `openNetworkConnectionWithToken:`. -/
def openNetworkConnectionWithToken (c : FPersistentConnection Params Data Block)
    (token : Option String) : Option (FPersistentConnection Params Data Block) :=
  if c.connectionState = .gettingToken then
    some { c with
      authToken := token
      connectionState := .connecting
      realtime := some { state := .connecting, sent := [] } }
  else none

/-- The callback of `fetchTokenForcingRefresh:withCallback:`. -/
def fetchTokenCallback (c : FPersistentConnection Params Data Block) (thisFetchTokenAttempt : ℕ)
    (result : Except Unit (Option String)) : Option (FPersistentConnection Params Data Block) :=
  -- the answer to an older attempt is ignored
  if thisFetchTokenAttempt = c.currentFetchTokenAttempt then
    match result with
    | .error () => tryScheduleReconnect { c with connectionState := .disconnected }
    | .ok token =>
      if c.connectionState = .gettingToken then c.openNetworkConnectionWithToken token
      -- the attempt has been interrupted meanwhile
      else if c.connectionState = .disconnected then some c
      else none
  else some c

/-- The `j`-th of the unanswered attempts to fetch a token is answered. -/
def tokenFetched (c : FPersistentConnection Params Data Block) (j : ℕ)
    (result : Except Unit (Option String)) : Option (FPersistentConnection Params Data Block) :=
  match c.fetches[j]? with
  | some attempt => fetchTokenCallback { c with fetches := c.fetches.eraseIdx j } attempt result
  | none => some c

/-- `cancelSentTransactions`. -/
def cancelSentTransactions (c : FPersistentConnection Params Data Block) :
    FPersistentConnection Params Data Block :=
  let cancelledOutstandingPuts :=
    -- only transactions have a hash; other puts are sent again
    c.outstandingPuts.filter fun e => e.2.request.hash.isSome && e.2.sent
  cancelledOutstandingPuts.foldl
    (fun c e => { c with
      called := c.called ++ [.put e.2.onCompleteBlock (some "disconnect")
        (some "Client was disconnected while running a transaction")]
      outstandingPuts := SortedAssoc.erase c.outstandingPuts e.1 })
    c

/-- The first steps of `onDisconnect:withReason:`: nothing of the connection is kept. -/
def dropRealtime (c : FPersistentConnection Params Data Block) :
    FPersistentConnection Params Data Block :=
  let c := { c with connectionState := .disconnected, realtime := none }
  { c.cancelSentTransactions with requestCBHash := [], unackedListensCount := 0 }

/-- Whether the connection that is lost counts as a successful one. -/
def lastConnectionWasSuccessful (c : FPersistentConnection Params Data Block) : Bool :=
  0 < c.lastConnectionEstablishedTime ∧ 30 < c.date - c.lastConnectionEstablishedTime

/-- The retry helper, which is told of a success if there was one or the server asks for it. -/
def retryHelperAfter (c : FPersistentConnection Params Data Block) (reason : FDisconnectReason) :
    FIRRetryHelper Bool :=
  if reason = .serverReset ∨ c.lastConnectionWasSuccessful then c.retryHelper.signalSuccess
  else c.retryHelper

/-- `onDisconnect:withReason:`. -/
def onDisconnect (c : FPersistentConnection Params Data Block) (reason : FDisconnectReason) :
    Option (FPersistentConnection Params Data Block) :=
  let c := c.dropRealtime
  let scheduled :=
    if c.shouldReconnect then
      tryScheduleReconnect { c with retryHelper := c.retryHelperAfter reason }
    else some c
  scheduled.map fun c => { c with lastConnectionEstablishedTime := 0 }

/-- `closeWithReason:` of the connection that is in use. -/
def closeWithReason (c : FPersistentConnection Params Data Block) (reason : FDisconnectReason) :
    Option (FPersistentConnection Params Data Block) :=
  match c.realtime with
  | some conn => if conn.state = .disconnected then some c else c.onDisconnect reason
  | none => some c

/-- `interruptForReason:`. -/
def interruptForReason (c : FPersistentConnection Params Data Block) (reason : String) :
    Option (FPersistentConnection Params Data Block) :=
  let c := { c with interruptReasons := insert reason c.interruptReasons }
  let interrupted :=
    if c.realtime.isSome then
      -- closing the connection leads to its end at once
      (c.closeWithReason .other).map fun c => { c with realtime := none }
    else
      some { c with retryHelper := c.retryHelper.cancel, connectionState := .disconnected }
  interrupted.map fun c => { c with retryHelper := c.retryHelper.signalSuccess }

/-- `resumeForReason:`. -/
def resumeForReason (c : FPersistentConnection Params Data Block) (reason : String) :
    Option (FPersistentConnection Params Data Block) :=
  let c := { c with interruptReasons := c.interruptReasons.erase reason }
  if c.shouldReconnect ∧ c.connectionState = .disconnected then c.tryScheduleReconnect else some c

/-- `enteringForeground`; the same is done when the network becomes reachable. -/
def enteringForeground (c : FPersistentConnection Params Data Block) :
    Option (FPersistentConnection Params Data Block) :=
  let c := { c with retryHelper := c.retryHelper.signalSuccess }
  if c.connectionState = .disconnected then c.tryScheduleReconnect else some c

/-- `onReady:atTime:sessionID:`. -/
def onReady (c : FPersistentConnection Params Data Block) :
    Option (FPersistentConnection Params Data Block) :=
  let c := { c with lastConnectionEstablishedTime := c.date }
  -- statistics are sent once, before anything else
  (if c.firstConnection then c.sendAction .stats (some .stats) else some c).bind fun c =>
    c.restoreAuth.map fun c => { c with firstConnection := false }

/-- `onHandshake:` of the connection that is in use. -/
def onHandshake (c : FPersistentConnection Params Data Block) :
    Option (FPersistentConnection Params Data Block) :=
  match c.realtime with
  | some conn =>
    if conn.state = .connecting then
      onReady { c with realtime := some { conn with state := .connected } }
    else some c
  | none => some c

/-! ## Answers -/

/-- `ackPuts`. -/
def ackPuts (c : FPersistentConnection Params Data Block) :
    FPersistentConnection Params Data Block :=
  { c with
    called := c.called ++ c.putsToAck.map fun put => .put put.block put.status put.errorReason
    putsToAck := [] }

/-- The answer to a put. Numbers of puts are used once, so the put is still the one that was sent if
there is one with its number. -/
def putResponse (c : FPersistentConnection Params Data Block) (index : ℕ) (onComplete : Block)
    (status errorReason : Option String) : FPersistentConnection Params Data Block :=
  if (SortedAssoc.find c.outstandingPuts index).isSome then
    let c := { c with outstandingPuts := SortedAssoc.erase c.outstandingPuts index }
    -- the answer waits while listens are unanswered
    if c.unackedListensCount = 0 then
      { c with called := c.called ++ [.put onComplete status errorReason] }
    else { c with putsToAck := c.putsToAck ++ [⟨onComplete, status, errorReason⟩] }
  else c

/-- The listen is complete, unless it has been removed or added anew meanwhile. What `removeListen:`
asserts holds of every outstanding query. -/
def completeListen (c : FPersistentConnection Params Data Block)
    (listenSpec : FOutstandingQuery Params Block) (status : Option String) :
    FPersistentConnection Params Data Block :=
  if c.listens.any fun currentListenSpec => currentListenSpec.id = listenSpec.id then
    let listens :=
      -- a listen that fails is given up
      if status = some "ok" then c.listens
      else c.listens.filter fun currentListenSpec => currentListenSpec.id ≠ listenSpec.id
    { c with listens, called := c.called ++ [.listen listenSpec.onComplete status] }
  else c

/-- One more listen has been answered. The counter is unsigned. -/
def countAckedListen (c : FPersistentConnection Params Data Block) :
    FPersistentConnection Params Data Block :=
  let unackedListensCount :=
    if c.unackedListensCount = 0 then 2 ^ 64 - 1 else c.unackedListensCount - 1
  let c := { c with unackedListensCount }
  if c.unackedListensCount = 0 then c.ackPuts else c

/-- The answer to a listen. -/
def listenResponse (c : FPersistentConnection Params Data Block)
    (listenSpec : FOutstandingQuery Params Block) (status : Option String) :
    FPersistentConnection Params Data Block :=
  (c.completeListen listenSpec status).countAckedListen

/-- The answer to an authentication. -/
def authResponse (c : FPersistentConnection Params Data Block) (restoreStateAfterComplete : Bool)
    (status : Option String) : Option (FPersistentConnection Params Data Block) :=
  let c := { c with connectionState := .connected }
  if status = some "ok" then
    if restoreStateAfterComplete then c.restoreState else some c
  -- the token was not accepted, so the next one is to be a new one
  else closeWithReason { c with authToken := none, forceAuthTokenRefresh := true } .other

/-- A message from the server, other than one with data: an answer to a request, an error, or a push
that revokes something. -/
inductive Message
  | response (requestNumber : ℕ) (status data : Option String)
  | error (error : String)
  | authRevoked
  | listenRevoked (path : String)

/-- The block that waits for an answer is called. -/
def callBlock (c : FPersistentConnection Params Data Block) (status data : Option String) :
    ResponseBlock Params Block → Option (FPersistentConnection Params Data Block)
  | .auth restoreStateAfterComplete => c.authResponse restoreStateAfterComplete status
  | .put index onComplete => some (c.putResponse index onComplete status data)
  | .listen listenSpec => some (c.listenResponse listenSpec status)
  | .onDisconnect onComplete =>
    some { c with called := c.called ++ [.onDisconnect onComplete status data] }
  | .stats => some c

/-- `onListenRevoked:`. -/
def onListenRevoked (c : FPersistentConnection Params Data Block) (path : String) :
    FPersistentConnection Params Data Block :=
  let removed := c.listens.filter fun outstanding => outstanding.query.path = path
  { c with
    listens := c.listens.filter fun outstanding => outstanding.query.path ≠ path
    called := c.called ++ removed.map fun query =>
      .listen query.onComplete (some "permission_denied") }

/-- `onAuthRevokedWithStatus:andReason:`. -/
def onAuthRevoked (c : FPersistentConnection Params Data Block) :
    Option (FPersistentConnection Params Data Block) :=
  closeWithReason { c with authToken := none, forceAuthTokenRefresh := true } .other

/-- `onDataMessage:withMessage:`. -/
def onDataMessage (c : FPersistentConnection Params Data Block) :
    Message → Option (FPersistentConnection Params Data Block)
  | .response rn status data =>
    match SortedAssoc.find c.requestCBHash rn with
    | some callback =>
      -- each callback is called once
      callBlock { c with requestCBHash := SortedAssoc.erase c.requestCBHash rn } status data
        callback
    | none => some c
  -- an exception is thrown
  | .error _ => none
  | .authRevoked => c.onAuthRevoked
  | .listenRevoked path => some (c.onListenRevoked path)

/-! ## Requests of the client -/

/-- `putInternal:forAction:forPath:withHash:withCallback:`. -/
def putInternal (c : FPersistentConnection Params Data Block) (action : PutAction)
    (request : PutRequest Data) (onComplete : Block) :
    Option (FPersistentConnection Params Data Block) :=
  let put : FOutstandingPut Data Block := ⟨action, request, onComplete, false⟩
  let index := c.putCounter
  let c := { c with
    putCounter := index + 1
    outstandingPuts := SortedAssoc.insert c.outstandingPuts index put }
  -- otherwise it is sent when the state is restored
  if c.canSendWrites then c.sendPut index else some c

/-- `onDisconnectPutData:forPath:withCallback:`, `onDisconnectMergeData:forPath:withCallback:` and
`onDisconnectCancelPath:withCallback:`. -/
def onDisconnectRequest (c : FPersistentConnection Params Data Block)
    (tuple : FTupleOnDisconnect Data Block) : Option (FPersistentConnection Params Data Block) :=
  if c.canSendWrites then c.sendOnDisconnectAction tuple
  else some { c with onDisconnectQueue := c.onDisconnectQueue ++ [tuple] }

/-- `refreshAuthToken:`. -/
def refreshAuthToken (c : FPersistentConnection Params Data Block) (token : Option String) :
    Option (FPersistentConnection Params Data Block) :=
  let c := { c with authToken := token }
  if c.connected then
    if token.isSome then c.sendAuth false else c.sendAction .unauth none
  else some c

/-- `purgeOutstandingWrites`. -/
def purgeOutstandingWrites (c : FPersistentConnection Params Data Block) :
    FPersistentConnection Params Data Block :=
  let c := c.ackPuts
  { c with
    called := c.called ++
      (c.outstandingPuts.map fun e => .put e.2.onCompleteBlock (some "write_canceled") none) ++
      c.onDisconnectQueue.map fun tuple =>
        .onDisconnect tuple.onComplete (some "write_canceled") none
    outstandingPuts := []
    onDisconnectQueue := [] }

variable [DecidableEq Params]

/-- `listen:tagId:hash:onComplete:`. -/
def listen (c : FPersistentConnection Params Data Block) (query : FQuerySpec Params)
    (tagId : Option ℕ) (onComplete : Block) : Option (FPersistentConnection Params Data Block) :=
  -- both assertions
  if c.listens.any fun outstanding => outstanding.query = query then none
  else if h : query.canListen = true then
    let outstanding : FOutstandingQuery Params Block :=
      ⟨c.listenCounter, query, tagId, onComplete, h⟩
    let c := { c with
      listenCounter := c.listenCounter + 1
      listens := c.listens ++ [outstanding] }
    if c.connected then c.sendListen outstanding else some c
  else none

/-- `removeListen:`, with whether there was a listen to remove. -/
def removeListen (c : FPersistentConnection Params Data Block) (query : FQuerySpec Params) :
    Option (Bool × FPersistentConnection Params Data Block) :=
  if query.canListen then
    some (c.listens.any fun outstanding => outstanding.query = query,
      { c with listens := c.listens.filter fun outstanding => outstanding.query ≠ query })
  else none

/-- `unlisten:tagId:`. -/
def unlisten (c : FPersistentConnection Params Data Block) (query : FQuerySpec Params)
    (tagId : Option ℕ) : Option (FPersistentConnection Params Data Block) :=
  (c.removeListen query).bind fun (found, c) =>
    if found ∧ c.connected then c.sendAction (.unlisten query tagId) none else some c

/-! ## The machine -/

/-- What happens to a connection. -/
inductive Event (Params Data Block : Type*)
  -- what the client asks for
  | interruptForReason (reason : String)
  | resumeForReason (reason : String)
  | refreshAuthToken (token : Option String)
  | listen (query : FQuerySpec Params) (tagId : Option ℕ) (onComplete : Block)
  | unlisten (query : FQuerySpec Params) (tagId : Option ℕ)
  | put (action : PutAction) (request : PutRequest Data) (onComplete : Block)
  | onDisconnect (tuple : FTupleOnDisconnect Data Block)
  | purgeOutstandingWrites
  -- what the device and the token provider do
  | elapse (time : ℚ)
  | retryTimer
  | tokenFetched (j : ℕ) (result : Except Unit (Option String))
  | enteringForeground
  -- what comes from the server
  | handshake
  | message (message : Message)
  | connectionLost
  | reset
  | shutdown

/-- The connection as a machine. -/
def step : PartialStep (FPersistentConnection Params Data Block) (Event Params Data Block)
  | c, .interruptForReason reason => c.interruptForReason reason
  | c, .resumeForReason reason => c.resumeForReason reason
  | c, .refreshAuthToken token => c.refreshAuthToken token
  | c, .listen query tagId onComplete => c.listen query tagId onComplete
  | c, .unlisten query tagId => c.unlisten query tagId
  | c, .put action request onComplete => c.putInternal action request onComplete
  | c, .onDisconnect tuple => c.onDisconnectRequest tuple
  | c, .purgeOutstandingWrites => some c.purgeOutstandingWrites
  | c, .elapse time => some { c with date := c.date + time }
  | c, .retryTimer => c.retryTimer
  | c, .tokenFetched j result => c.tokenFetched j result
  | c, .enteringForeground => c.enteringForeground
  | c, .handshake => c.onHandshake
  | c, .message message => c.onDataMessage message
  | c, .connectionLost => c.closeWithReason .other
  | c, .reset => c.closeWithReason .serverReset
  -- `onKill:withReason:`
  | c, .shutdown => if c.realtime.isSome then c.interruptForReason "server_kill" else some c

end FPersistentConnection

end Database
