import DateCourse.Database.PutDelivery
import DateCourse.Database.SyncTreeRun

/-!
# A client of the database

An `FRepo` gives every write to the sync tree, which shows it at once, and to the connection, which
sends it. When the completion block of its put is called, the write is acknowledged in the sync tree
or reverted. Acknowledging a write that is not pending would trap, so the two have to agree on the
writes that have not been answered.

Persistence and transactions are left out. The blocks of the puts are the identifiers of their
writes.

## Main definitions

* `FRepo.step`: the client as a machine;
* `FRepo.Inv`: what the sync tree and the connection agree on.

## Main results

* `FRepo.along_agree`: every put that has not been answered is about a write that is pending, so the
  client traps only where the connection does, on a purge while answered puts are held back, and in
  a debug build where a revert fails the filter's assertion.
-/

namespace Database

variable {K L Params : Type*} [Ord K] [FQueryParams Params]

/-! ## Acknowledging writes in the sync tree -/

namespace FWriteTree

/-- The identifiers of the pending writes. -/
def writeIds (t : FWriteTree K L) : List Int := t.allWrites.map (·.writeId)

/-- All writes are visible, and the identifiers from `n` on have not been used. -/
structure Issued (t : FWriteTree K L) (n : Int) : Prop where
  pos : -1 < n
  last : t.lastWriteId < n
  writes : ∀ writeId ∈ t.writeIds, writeId < n
  visible : ∀ write ∈ t.allWrites, write.visible = true

end FWriteTree

namespace FSyncTree

/-- The writes that have not been answered. -/
def pendingIds (t : FSyncTree K L) : List Int := t.pendingWriteTree.writeIds

/-- The event writes, or acknowledges writes. -/
def Event.isWrite : Event K L → Bool
  | userOverwrite .. | userMerge .. | ackUserWrite .. | removeAllWrites => true
  | _ => false

end FSyncTree

/-- The event issues a put, or purges the outstanding ones. -/
def FPersistentConnection.Event.isWrite {Data Block : Type*} : Event Params Data Block → Bool
  | put .. | purgeOutstandingWrites => true
  | _ => false

/-- `FRepo`. -/
structure FRepo (K L Params : Type*) [Ord K] [FQueryParams Params] where
  serverSyncTree : FSyncTree K L
  connection : FPersistentConnection Params (Written K L) Int
  writeIdCounter : Int

/-- What happens to a client: what the application asks for, and other events of the connection and
of the sync tree. -/
inductive FRepo.Event (K L Params : Type*) [Ord K]
  | set (path : FPath K) (node : Node K L)
  | update (path : FPath K) (nodes : CompoundWrite K L)
  | purgeOutstandingWrites
  | connection (e : FPersistentConnection.Event Params (Written K L) Int) (h : e.isWrite = false)
  | serverSyncTree (e : FSyncTree.Event K L) (h : e.isWrite = false)

variable [Std.TransOrd K] [Std.LawfulEqOrd K] [DecidableEq K] [DecidableEq L]

namespace FWriteTree

omit [Std.TransOrd K] [Std.LawfulEqOrd K] [DecidableEq K] [DecidableEq L] in
/-- Identifiers from a greater number on have not been used either. -/
theorem Issued.mono {t : FWriteTree K L} {n m : Int} (h : t.Issued n) (hnm : n ≤ m) : t.Issued m :=
  ⟨lt_of_lt_of_le h.pos hnm, lt_of_lt_of_le h.last hnm,
    fun writeId hid => lt_of_lt_of_le (h.writes writeId hid) hnm, h.visible⟩

omit [Std.TransOrd K] [Std.LawfulEqOrd K] [DecidableEq K] [DecidableEq L] in
/-- A new write uses the next identifier. -/
theorem Issued.append {t t' : FWriteTree K L} {n : Int} (h : t.Issued n) {write : FWriteRecord K L}
    (hid : write.writeId = n) (hvisible : write.visible = true) (hlast : t'.lastWriteId = n)
    (hall : t'.allWrites = t.allWrites ++ [write]) :
    t'.writeIds = t.writeIds ++ [n] ∧ t'.Issued (n + 1) := by
  have hwrites : t'.writeIds = t.writeIds ++ [n] := by
    rw [writeIds, writeIds, hall, List.map_append, ← hid]
    rfl
  refine ⟨hwrites, lt_trans h.pos (lt_add_one n), ?_, ?_, ?_⟩
  · rw [hlast]
    exact lt_add_one n
  · rw [hwrites]
    intro writeId hmem
    rcases List.mem_append.mp hmem with hmem | hmem
    · exact lt_trans (h.writes writeId hmem) (lt_add_one n)
    · rw [List.mem_singleton.mp hmem]
      exact lt_add_one n
  · rw [hall]
    intro w hmem
    rcases List.mem_append.mp hmem with hmem | hmem
    · exact h.visible w hmem
    · rw [List.mem_singleton.mp hmem]
      exact hvisible

omit [DecidableEq L] in
/-- An overwrite under the next identifier is accepted and becomes pending. -/
theorem Issued.addOverwrite {t : FWriteTree K L} {writeId : Int} (h : t.Issued writeId)
    (path : FPath K) (newData : Node K L) :
    ∃ t', t.addOverwrite path newData writeId true = some t' ∧
      t'.writeIds = t.writeIds ++ [writeId] ∧ t'.Issued (writeId + 1) := by
  rw [FWriteTree.addOverwrite, if_pos h.last]
  exact ⟨_, rfl, h.append rfl rfl rfl rfl⟩

omit [DecidableEq L] in
/-- A merge under the next identifier is accepted and becomes pending. -/
theorem Issued.addMerge {t : FWriteTree K L} {writeId : Int} (h : t.Issued writeId)
    (path : FPath K) (changedChildren : CompoundWrite K L) :
    ∃ t', t.addMerge path changedChildren writeId = some t' ∧
      t'.writeIds = t.writeIds ++ [writeId] ∧ t'.Issued (writeId + 1) := by
  rw [FWriteTree.addMerge, if_pos h.last]
  exact ⟨_, rfl, h.append rfl rfl rfl rfl⟩

omit [DecidableEq L] in
/-- A write that is taken out is pending no longer, and the others still are. -/
theorem removeWriteId_writeIds {t t' : FWriteTree K L} {writeId : Int} {b : Bool}
    (h : t.removeWriteId writeId = some (b, t')) :
    t.writeIds.Perm (writeId :: t'.writeIds) ∧ ∀ n, t.Issued n → t'.Issued n := by
  obtain ⟨older, w, newer, hall, hid, -, hall', -⟩ := removeWriteId_cases h
  have hperm : t.writeIds.Perm (writeId :: t'.writeIds) := by
    rw [writeIds, writeIds, hall, hall', ← hid]
    exact (List.perm_middle (a := w)).map (·.writeId)
  refine ⟨hperm, fun n hbelow => ?_⟩
  have hwrites : ∀ id ∈ t'.writeIds, id < n := fun id hmem =>
    hbelow.writes id (hperm.mem_iff.mpr (List.mem_cons_of_mem _ hmem))
  -- the last identifier stays, or is the one of the last write that is left
  have hvisible : ∀ write ∈ t'.allWrites, write.visible = true := by
    rw [hall']
    intro write hmem
    refine hbelow.visible write (hall ▸ ?_)
    exact ((List.sublist_cons_self w newer).append_left older).subset hmem
  refine ⟨hbelow.pos, ?_, hwrites, hvisible⟩
  have hlast : t'.lastWriteId = t.lastWriteId ∨
      t'.lastWriteId = (t'.allWrites.getLast?.map (·.writeId)).getD (-1) := by
    obtain ⟨index, -, h⟩ := Option.bind_eq_some_iff.mp h
    obtain ⟨w', -, h⟩ := Option.map_eq_some_iff.mp h
    have ht' := congrArg Prod.snd h
    dsimp only at ht'
    rw [← ht', apply_ite Prod.snd, apply_ite Prod.snd]
    split_ifs
    all_goals first | exact Or.inl rfl | exact Or.inr rfl
  rcases hlast with hlast | hlast
  · rw [hlast]
    exact hbelow.last
  · rw [hlast]
    cases hget : t'.allWrites.getLast? with
    | none => exact hbelow.pos
    | some last => exact hwrites _ (List.mem_map_of_mem (List.mem_of_getLast? hget))

end FWriteTree

namespace FSyncTree

variable {DEBUG : Bool}

/-- An operation that reverts no write below a view leaves the pending writes alone. -/
theorem pendingWriteTree_applyOperationToSyncPoints (DEBUG : Bool) (t : FSyncTree K L)
    (operation : FOperation K L) (h : operation.revertsBelow = false) :
    ∃ t', t.applyOperationToSyncPoints DEBUG operation = some t' ∧
      t'.pendingWriteTree = t.pendingWriteTree := by
  obtain ⟨t', ht'⟩ := Option.isSome_iff_exists.mp (isSome_applyOperation_of_not_revertsBelow t h)
  exact ⟨t', ht', pendingWriteTree_applyOperation ht'⟩

/-- Acknowledging a pending write takes it out. -/
theorem ackUserWrite_spec (t : FSyncTree K L) {writeId : Int} (h : writeId ∈ t.pendingIds)
    {revert : Bool} (hasserts : DEBUG = true → (Event.ackUserWrite writeId revert).DebugAsserts t) :
    ∃ t', t.ackUserWrite DEBUG writeId revert = some t' ∧
      t.pendingIds.Perm (writeId :: t'.pendingIds) ∧
      ∀ n, t.pendingWriteTree.Issued n → t'.pendingWriteTree.Issued n := by
  obtain ⟨t', ht'⟩ := Option.isSome_iff_exists.mp
    (isSome_ackUserWrite_iff.mpr ⟨List.mem_map.mp h, hasserts⟩)
  obtain ⟨b, hremoved⟩ := pendingWriteTree_ackUserWrite ht'
  obtain ⟨hperm, hbelow⟩ := FWriteTree.removeWriteId_writeIds hremoved
  exact ⟨t', ht', hperm, hbelow⟩

/-- Acknowledging a write that is not pending traps. -/
theorem ackUserWrite_eq_none {t : FSyncTree K L} {writeId : Int} (h : writeId ∉ t.pendingIds)
    (revert : Bool) : t.ackUserWrite DEBUG writeId revert = none := by
  have hnone : t.pendingWriteTree.writeForId writeId = none := by
    rw [FWriteTree.writeForId, List.find?_eq_none]
    intro write hmem hid
    exact h (List.mem_map.mpr ⟨write, hmem, by simpa using hid⟩)
  rw [ackUserWrite, hnone, Option.bind_none]

/-- An overwrite of the user becomes pending. -/
theorem applyUserOverwrite_spec (DEBUG : Bool) (t : FSyncTree K L) {writeId : Int}
    (h : t.pendingWriteTree.Issued writeId) (path : FPath K) (newData : Node K L) :
    ∃ t', t.applyUserOverwrite DEBUG path newData writeId true = some t' ∧
      t'.pendingIds = t.pendingIds ++ [writeId] ∧ t'.pendingWriteTree.Issued (writeId + 1) := by
  obtain ⟨added, hadded, hids, hbelow⟩ := h.addOverwrite path newData
  obtain ⟨t', ht', hwrites⟩ := pendingWriteTree_applyOperationToSyncPoints DEBUG
    { t with pendingWriteTree := added } (.userOverwrite path newData) rfl
  rw [applyUserOverwrite, hadded, Option.bind_some]
  refine ⟨t', ht', ?_, ?_⟩
  · rw [pendingIds, hwrites]
    exact hids
  · rw [hwrites]
    exact hbelow

/-- A merge of the user becomes pending. -/
theorem applyUserMerge_spec (DEBUG : Bool) (t : FSyncTree K L) {writeId : Int}
    (h : t.pendingWriteTree.Issued writeId) (path : FPath K) (changedChildren : CompoundWrite K L) :
    ∃ t', t.applyUserMerge DEBUG path changedChildren writeId = some t' ∧
      t'.pendingIds = t.pendingIds ++ [writeId] ∧ t'.pendingWriteTree.Issued (writeId + 1) := by
  obtain ⟨added, hadded, hids, hbelow⟩ := h.addMerge path changedChildren
  obtain ⟨t', ht', hwrites⟩ := pendingWriteTree_applyOperationToSyncPoints DEBUG
    { t with pendingWriteTree := added } (.userMerge path changedChildren) rfl
  rw [applyUserMerge, hadded, Option.bind_some]
  refine ⟨t', ht', ?_, ?_⟩
  · rw [pendingIds, hwrites]
    exact hids
  · rw [hwrites]
    exact hbelow

/-- Removing all writes leaves none pending. -/
theorem removeAllWrites_spec (DEBUG : Bool) (t : FSyncTree K L) :
    ∃ t', t.removeAllWrites DEBUG = some t' ∧ t'.pendingIds = [] ∧
      ∀ n, t.pendingWriteTree.Issued n → t'.pendingWriteTree.Issued n := by
  have hbelow : ∀ n, t.pendingWriteTree.Issued n → t.pendingWriteTree.removeAllWrites.Issued n :=
    fun n h => ⟨h.pos, h.last, fun _ hmem => by contradiction, fun _ hmem => by contradiction⟩
  rw [removeAllWrites]
  split
  · obtain ⟨t', ht', hwrites⟩ := pendingWriteTree_applyOperationToSyncPoints DEBUG
      { t with pendingWriteTree := t.pendingWriteTree.removeAllWrites }
      (.ackUserWrite [] (FImmutableTree.empty.setValue () []) true) rfl
    refine ⟨t', ht', ?_, ?_⟩
    · rw [pendingIds, hwrites]
      rfl
    · rw [hwrites]
      exact hbelow
  · exact ⟨_, rfl, rfl, hbelow⟩

/-- Other events leave the pending writes alone. -/
theorem step_of_not_isWrite (DEBUG : Bool) (t : FSyncTree K L) {e : Event K L}
    (he : e.isWrite = false) :
    ∃ t', step DEBUG t e = some t' ∧ t'.pendingWriteTree = t.pendingWriteTree := by
  cases e with
  | serverOverwrite path newData => exact pendingWriteTree_applyOperationToSyncPoints DEBUG t _ rfl
  | serverMerge path changedChildren =>
    exact pendingWriteTree_applyOperationToSyncPoints DEBUG t _ rfl
  | listenComplete path => exact pendingWriteTree_applyOperationToSyncPoints DEBUG t _ rfl
  | addEventRegistration path => exact ⟨_, rfl, rfl⟩
  | _ => contradiction

end FSyncTree

/-! ## The client -/

namespace FRepo

variable {r : FRepo K L Params}

/-- `ackWrite:rerunTransactionsAtPath:status:`, when the completion block of a put is called. -/
def ackWrite (DEBUG : Bool) : PartialStep (FRepo K L Params) (Call Int)
  | r, .put writeId status _ =>
    -- the write has already been removed
    if status = some "write_canceled" then some r
    else
      (r.serverSyncTree.ackUserWrite DEBUG writeId (status ≠ some "ok")).map fun serverSyncTree =>
        { r with serverSyncTree }
  -- what a listen leads to are events of the sync tree
  | r, .listen .. | r, .onDisconnect .. => some r

variable [DecidableEq Params]

/-- Something happens to the connection, and the client hears of the blocks that are called. -/
def connectionStep (DEBUG : Bool) (r : FRepo K L Params)
    (e : FPersistentConnection.Event Params (Written K L) Int) : Option (FRepo K L Params) :=
  (r.connection.step e).bind fun connection =>
    -- the blocks are called in their order
    PartialStep.exec (ackWrite DEBUG) { r with connection := { connection with called := [] } }
      connection.called

/-- `set:withNode:withCallback:`. -/
def set (DEBUG : Bool) (pathString : FPath K → String) (r : FRepo K L Params) (path : FPath K)
    (node : Node K L) : Option (FRepo K L Params) :=
  -- the sync tree shows the write before it is sent
  let writeId := r.writeIdCounter
  (r.serverSyncTree.applyUserOverwrite DEBUG path node writeId true).bind fun serverSyncTree =>
    connectionStep DEBUG { r with serverSyncTree, writeIdCounter := writeId + 1 }
      (.put .put ⟨pathString path, .overwrite node, none⟩ writeId)

/-- `update:withNodes:withCallback:`; nothing is done for no data. -/
def update (DEBUG : Bool) (pathString : FPath K → String) (r : FRepo K L Params) (path : FPath K)
    (nodes : CompoundWrite K L) : Option (FRepo K L Params) :=
  if !nodes.isEmpty then
    let writeId := r.writeIdCounter
    (r.serverSyncTree.applyUserMerge DEBUG path nodes writeId).bind fun serverSyncTree =>
      connectionStep DEBUG { r with serverSyncTree, writeIdCounter := writeId + 1 }
        (.put .merge ⟨pathString path, .merge nodes, none⟩ writeId)
  else some r

/-- `purgeOutstandingWrites`. -/
def purgeOutstandingWrites (DEBUG : Bool) (r : FRepo K L Params) : Option (FRepo K L Params) :=
  (r.serverSyncTree.removeAllWrites DEBUG).bind fun serverSyncTree =>
    -- the writes are gone before the blocks of their puts are called
    connectionStep DEBUG { r with serverSyncTree } .purgeOutstandingWrites

/-- The client as a machine, in a build with or without `DEBUG`. -/
def step (DEBUG : Bool) (pathString : FPath K → String) :
    PartialStep (FRepo K L Params) (Event K L Params)
  | r, .set path node => r.set DEBUG pathString path node
  | r, .update path nodes => r.update DEBUG pathString path nodes
  | r, .purgeOutstandingWrites => r.purgeOutstandingWrites DEBUG
  | r, .connection e _ => r.connectionStep DEBUG e
  | r, .serverSyncTree e _ =>
    (FSyncTree.step DEBUG r.serverSyncTree e).map fun serverSyncTree => { r with serverSyncTree }

/-- A client that has just started. -/
def init : FRepo K L Params where
  serverSyncTree := FSyncTree.init
  connection := FPersistentConnection.init
  writeIdCounter := 0

/-! ## What the sync tree and the connection agree on -/

/-- The writes whose puts have not been answered, or whose answers are held back. -/
def unanswered (r : FRepo K L Params) : List Int :=
  r.connection.putsToAck.map (·.block) ++ r.connection.outstandingPuts.map (·.2.onCompleteBlock)

/-- The invariant: every write that is unanswered is pending, and new identifiers are new. -/
structure Inv (r : FRepo K L Params) : Prop where
  connection : FPersistentConnection.Inv r.connection
  called : r.connection.called = []
  unanswered : r.unanswered.Subperm r.serverSyncTree.pendingIds
  below : r.serverSyncTree.pendingWriteTree.Issued r.writeIdCounter

omit [Std.TransOrd K] [Std.LawfulEqOrd K] [DecidableEq K] [DecidableEq L] [DecidableEq Params] in
/-- The invariant holds of a new client. -/
theorem inv_init : Inv (init : FRepo K L Params) :=
  ⟨FPersistentConnection.inv_init, rfl, List.Subperm.refl _,
    ⟨neg_one_lt_zero, neg_one_lt_zero, fun _ hmem => by contradiction,
      fun _ hmem => by contradiction⟩⟩

omit [Std.TransOrd K] [Std.LawfulEqOrd K] [DecidableEq K] [DecidableEq L] [DecidableEq Params] in
/-- The blocks of the connection are the unanswered writes. -/
theorem Inv.completionBlocks (h : Inv r) : r.connection.completionBlocks = r.unanswered := by
  rw [FPersistentConnection.completionBlocks, h.called]
  rfl

/-- What the filter asserts under `#ifdef DEBUG` holds when the write of a block is acknowledged or
reverted. -/
def AckAsserts (r : FRepo K L Params) : Call Int → Prop
  | .put writeId status _ => status ≠ some "write_canceled" →
    (FSyncTree.Event.ackUserWrite writeId (status ≠ some "ok")).DebugAsserts r.serverSyncTree
  | .listen .. | .onDisconnect .. => True

variable {DEBUG : Bool}

omit [DecidableEq Params] in
/-- Writes that are pending are acknowledged one after the other, if the assertions that are
compiled in hold. -/
theorem exec_ackWrite_spec (calls : List (Call Int)) {r : FRepo K L Params} {rest : List Int}
    (h : (calls.filterMap Call.putBlock ++ rest).Subperm r.serverSyncTree.pendingIds)
    (hasserts : DEBUG = true → PartialStep.EachStep (ackWrite DEBUG) AckAsserts r calls) :
    ∃ t, PartialStep.exec (ackWrite DEBUG) r calls = some { r with serverSyncTree := t } ∧
      rest.Subperm t.pendingIds ∧
      ∀ n, r.serverSyncTree.pendingWriteTree.Issued n → t.pendingWriteTree.Issued n := by
  induction calls generalizing r with
  | nil => exact ⟨r.serverSyncTree, rfl, h, fun _ hbelow => hbelow⟩
  | cons call calls ih =>
    cases call with
    | put writeId status errorReason =>
      replace h : (writeId :: (calls.filterMap Call.putBlock ++ rest)).Subperm
          r.serverSyncTree.pendingIds := h
      -- a cancelled write stays pending, others are taken out
      by_cases hcanceled : status = some "write_canceled"
      · have hack : ackWrite DEBUG r (.put writeId status errorReason) = some r := by
          rw [ackWrite, if_pos hcanceled]
        obtain ⟨t, ht, hrest, hbelow⟩ := ih (List.Subperm.cons_self.trans h)
          fun hDEBUG => (hasserts hDEBUG).2 r hack
        refine ⟨t, ?_, hrest, hbelow⟩
        rw [PartialStep.exec_cons, hack, Option.bind_some, ht]
      · obtain ⟨t₁, ht₁, hperm, hbelow₁⟩ := r.serverSyncTree.ackUserWrite_spec
          (h.subset List.mem_cons_self) fun hDEBUG => (hasserts hDEBUG).1 hcanceled
        have hack : ackWrite DEBUG r (.put writeId status errorReason) =
            some { r with serverSyncTree := t₁ } := by
          rw [ackWrite, if_neg hcanceled, ht₁, Option.map_some]
        -- what is left is pending without this write
        have hleft := (List.subperm_cons writeId).mp (h.trans hperm.subperm)
        obtain ⟨t, ht, hrest, hbelow⟩ := ih (r := { r with serverSyncTree := t₁ }) hleft
          fun hDEBUG => (hasserts hDEBUG).2 _ hack
        refine ⟨t, ?_, hrest, fun n hn => hbelow n (hbelow₁ n hn)⟩
        rw [PartialStep.exec_cons, hack, Option.bind_some, ht]
    | listen block status =>
      obtain ⟨t, ht, hrest, hbelow⟩ := ih h fun hDEBUG => (hasserts hDEBUG).2 r rfl
      exact ⟨t, ht, hrest, hbelow⟩
    | onDisconnect block status errorReason =>
      obtain ⟨t, ht, hrest, hbelow⟩ := ih h fun hDEBUG => (hasserts hDEBUG).2 r rfl
      exact ⟨t, ht, hrest, hbelow⟩

omit [DecidableEq Params] in
/-- Where writes are acknowledged without a trap in a debug build, the assertions have held. -/
theorem ackAsserts_of_exec (hDEBUG : DEBUG = true) {calls : List (Call Int)}
    {r r' : FRepo K L Params} (h : PartialStep.exec (ackWrite DEBUG) r calls = some r') :
    PartialStep.EachStep (ackWrite DEBUG) AckAsserts r calls := by
  refine PartialStep.eachStep_of_exec (fun r call r' hr' => ?_) calls h
  cases call with
  | put writeId status errorReason =>
    intro hcanceled
    rw [ackWrite, if_neg hcanceled] at hr'
    obtain ⟨t, ht, -⟩ := Option.map_eq_some_iff.mp hr'
    exact (FSyncTree.isSome_ackUserWrite_iff.mp (Option.isSome_of_eq_some ht)).2 hDEBUG
  | listen block status => trivial
  | onDisconnect block status errorReason => trivial

omit [DecidableEq Params] in
/-- Nothing is asserted when the blocks of no puts are called. -/
theorem ackAsserts_of_putBlock {calls : List (Call Int)} (r : FRepo K L Params)
    (h : calls.filterMap Call.putBlock = []) :
    PartialStep.EachStep (ackWrite DEBUG) AckAsserts r calls := by
  refine PartialStep.eachStep_of_inv (K := fun _ => True) calls (fun call hcall r _ => ?_) trivial
  refine ⟨?_, fun _ _ => trivial⟩
  cases call with
  | put writeId status errorReason =>
    have hnone := List.filterMap_eq_nil_iff.mp h _ hcall
    contradiction
  | listen block status => trivial
  | onDisconnect block status errorReason => trivial

omit [DecidableEq Params] in
/-- The writes of cancelled puts have been removed before. -/
theorem exec_ackWrite_of_canceled (DEBUG : Bool) (calls : List (Call Int)) (r : FRepo K L Params)
    (h : ∀ writeId status errorReason, .put writeId status errorReason ∈ calls →
      status = some "write_canceled") :
    PartialStep.exec (ackWrite DEBUG) r calls = some r := by
  induction calls with
  | nil => rfl
  | cons call calls ih =>
    have hcall : ackWrite DEBUG r call = some r := by
      cases call with
      | put writeId status errorReason =>
        rw [ackWrite, if_pos (h _ _ _ List.mem_cons_self)]
      | listen block status => rfl
      | onDisconnect block status errorReason => rfl
    rw [PartialStep.exec_cons, hcall, Option.bind_some]
    exact ih fun _ _ _ hmem => h _ _ _ (List.mem_cons_of_mem _ hmem)

omit [DecidableEq Params] in
/-- Once all writes have been removed, none can be acknowledged. -/
theorem exec_ackWrite_eq_none (calls : List (Call Int)) {r : FRepo K L Params}
    (hnone : r.serverSyncTree.pendingIds = []) {writeId : Int} {status errorReason : Option String}
    (hmem : .put writeId status errorReason ∈ calls) (hstatus : status ≠ some "write_canceled") :
    PartialStep.exec (ackWrite DEBUG) r calls = none := by
  induction calls with
  | nil => contradiction
  | cons call calls ih =>
    rw [PartialStep.exec_cons]
    by_cases hcall : ∀ writeId status errorReason, call = .put writeId status errorReason →
        status = some "write_canceled"
    · have hfirst := exec_ackWrite_of_canceled DEBUG [call] r fun writeId status errorReason hput =>
        hcall writeId status errorReason (List.mem_singleton.mp hput).symm
      rw [PartialStep.exec_cons] at hfirst
      obtain ⟨r₁, hr₁, hr⟩ := Option.bind_eq_some_iff.mp hfirst
      obtain rfl := Option.some.inj hr
      rw [hr₁, Option.bind_some]
      rcases List.mem_cons.mp hmem with rfl | hmem
      · exact absurd (hcall _ _ _ rfl) hstatus
      · exact ih hmem
    · push Not at hcall
      obtain ⟨writeId', status', errorReason', rfl, hstatus'⟩ := hcall
      rw [ackWrite, if_neg hstatus', FSyncTree.ackUserWrite_eq_none]
      · rfl
      · rw [hnone]
        exact List.not_mem_nil

/-- What the filter asserts under `#ifdef DEBUG` holds when the blocks are called that an event of
the connection calls. -/
def AcksAssert (r : FRepo K L Params)
    (e : FPersistentConnection.Event Params (Written K L) Int) : Prop :=
  ∀ connection, r.connection.step e = some connection →
    PartialStep.EachStep (ackWrite true) AckAsserts
      { r with connection := { connection with called := [] } } connection.called

/-- A step of the connection after which the blocks that are called find their writes. -/
theorem connectionStep_spec {r : FRepo K L Params}
    (hconnection : FPersistentConnection.Inv r.connection)
    {e : FPersistentConnection.Event Params (Written K L) Int} (he : e.Accepted r.connection)
    (h : (r.connection.completionBlocks ++ e.issued).Subperm r.serverSyncTree.pendingIds)
    (hbelow : r.serverSyncTree.pendingWriteTree.Issued r.writeIdCounter)
    (hasserts : DEBUG = true → r.AcksAssert e) :
    ∃ r', r.connectionStep DEBUG e = some r' ∧ Inv r' := by
  obtain ⟨c', hc', hinv, -, hdelivery⟩ := FPersistentConnection.step_spec hconnection e he
  -- each block that is called or waits now was unanswered before, or is the one issued now
  have hledger := Delivery.ledger_apply r.connection.delivery (r.connection.op e)
  rw [← hdelivery, FPersistentConnection.ledger_delivery, FPersistentConnection.ledger_delivery,
    FPersistentConnection.issued_op] at hledger
  have hsub := hledger.subperm.trans h
  rw [FPersistentConnection.completionBlocks, List.append_assoc] at hsub
  obtain ⟨t, ht, hrest, hbelow'⟩ := exec_ackWrite_spec c'.called
    (r := { r with connection := { c' with called := [] } }) hsub
    fun hDEBUG => hDEBUG ▸ hasserts hDEBUG c' hc'
  have hstep : r.connectionStep DEBUG e = PartialStep.exec (ackWrite DEBUG)
      { r with connection := { c' with called := [] } } c'.called := by
    rw [connectionStep, hc', Option.bind_some]
  exact ⟨_, hstep.trans ht, hinv.congr rfl, rfl, hrest, hbelow' _ hbelow⟩

/-- Issuing a put calls the block of no put. -/
theorem acksAssert_put {r : FRepo K L Params} (h : FPersistentConnection.Inv r.connection)
    (hcalled : r.connection.called = []) (action : PutAction) (request : PutRequest (Written K L))
    (writeId : Int) : r.AcksAssert (.put action request writeId) := by
  intro connection hconnection
  obtain ⟨c', hc', -, -, hdelivery⟩ :=
    FPersistentConnection.step_spec h (.put action request writeId) trivial
  obtain rfl := Option.some.inj (hconnection.symm.trans hc')
  refine ackAsserts_of_putBlock _ ((congrArg Delivery.answered hdelivery).trans ?_)
  show r.connection.called.filterMap Call.putBlock = []
  rw [hcalled, List.filterMap_nil]

/-- The event is one that the connection accepts, and writes are purged only when no answer to a put
is held back. -/
def Event.Accepted (r : FRepo K L Params) : Event K L Params → Prop
  | connection e _ => e.Accepted r.connection
  | purgeOutstandingWrites =>
    ∀ put ∈ r.connection.putsToAck, put.status = some "write_canceled"
  | _ => True

/-- What the filter asserts under `#ifdef DEBUG` holds when the event is handled: it can fail only
when writes are reverted. -/
def Event.DebugAsserts (r : FRepo K L Params) : Event K L Params → Prop
  | connection e _ => r.AcksAssert e
  | _ => True

omit [Std.TransOrd K] [Std.LawfulEqOrd K] [DecidableEq K] [DecidableEq L] [DecidableEq Params] in
/-- What is called on a purge. -/
theorem put_mem_called_purge {r : FRepo K L Params} (h : r.connection.called = []) {writeId : Int}
    {status errorReason : Option String}
    (hput : .put writeId status errorReason ∈ r.connection.purgeOutstandingWrites.called) :
    status = some "write_canceled" ∨ ∃ put ∈ r.connection.putsToAck, put.status = status := by
  simp only [FPersistentConnection.purgeOutstandingWrites, FPersistentConnection.ackPuts, h,
    List.nil_append, List.mem_append, List.mem_map] at hput
  rcases hput with (⟨put, hmem, heq⟩ | ⟨put, hmem, heq⟩) | ⟨tuple, hmem, heq⟩
  · obtain ⟨-, hstatus, -⟩ := Call.put.inj heq
    exact Or.inr ⟨put, hmem, hstatus⟩
  · obtain ⟨-, hstatus, -⟩ := Call.put.inj heq
    exact Or.inl hstatus.symm
  · contradiction

/-- A purge does not trap while the answers held back are cancellations. -/
theorem Inv.purgeOutstandingWrites {r : FRepo K L Params} (h : Inv r)
    (hpurge : ∀ put ∈ r.connection.putsToAck, put.status = some "write_canceled") :
    ∃ r', r.purgeOutstandingWrites DEBUG = some r' ∧ Inv r' := by
  obtain ⟨t, ht, hnone, hbelow⟩ := r.serverSyncTree.removeAllWrites_spec DEBUG
  obtain ⟨hinv, -, -⟩ := h.connection.purgeOutstandingWrites
  rw [FRepo.purgeOutstandingWrites, ht, Option.bind_some]
  refine ⟨_, exec_ackWrite_of_canceled DEBUG _ _ fun writeId status errorReason hput => ?_, ?_⟩
  · rcases put_mem_called_purge h.called hput with hstatus | ⟨put, hmem, rfl⟩
    · exact hstatus
    · exact hpurge put hmem
  · exact ⟨hinv.congr rfl, rfl, List.nil_subperm, hbelow _ h.below⟩

variable (DEBUG : Bool) (pathString : FPath K → String)

/-- A set does not trap. -/
theorem Inv.set {r : FRepo K L Params} (h : Inv r) (path : FPath K) (node : Node K L) :
    ∃ r', r.set DEBUG pathString path node = some r' ∧ Inv r' := by
  obtain ⟨t, ht, hids, hbelow⟩ := r.serverSyncTree.applyUserOverwrite_spec DEBUG h.below path node
  rw [FRepo.set, ht, Option.bind_some]
  have hasserts := acksAssert_put
    (r := { r with serverSyncTree := t, writeIdCounter := r.writeIdCounter + 1 })
    h.connection h.called .put ⟨pathString path, .overwrite node, none⟩ r.writeIdCounter
  refine connectionStep_spec
    (r := { r with serverSyncTree := t, writeIdCounter := r.writeIdCounter + 1 })
    h.connection trivial ?_ hbelow fun _ => hasserts
  show (r.connection.completionBlocks ++ [r.writeIdCounter]).Subperm t.pendingIds
  -- the write is pending before its put is outstanding
  rw [hids, h.completionBlocks]
  exact (List.subperm_append_right _).mpr h.unanswered

/-- An update does not trap. -/
theorem Inv.update {r : FRepo K L Params} (h : Inv r) (path : FPath K)
    (nodes : CompoundWrite K L) :
    ∃ r', r.update DEBUG pathString path nodes = some r' ∧ Inv r' := by
  rw [FRepo.update]
  split
  · obtain ⟨t, ht, hids, hbelow⟩ := r.serverSyncTree.applyUserMerge_spec DEBUG h.below path nodes
    dsimp only
    rw [ht, Option.bind_some]
    have hasserts := acksAssert_put
      (r := { r with serverSyncTree := t, writeIdCounter := r.writeIdCounter + 1 })
      h.connection h.called .merge ⟨pathString path, .merge nodes, none⟩ r.writeIdCounter
    refine connectionStep_spec
      (r := { r with serverSyncTree := t, writeIdCounter := r.writeIdCounter + 1 })
      h.connection trivial ?_ hbelow fun _ => hasserts
    show (r.connection.completionBlocks ++ [r.writeIdCounter]).Subperm t.pendingIds
    rw [hids, h.completionBlocks]
    exact (List.subperm_append_right _).mpr h.unanswered
  · exact ⟨r, rfl, h⟩

/-- A step keeps the invariant, and does not trap if the event is accepted and the assertions that
are compiled in hold. -/
theorem step_spec {r : FRepo K L Params} (h : Inv r) (e : Event K L Params) (he : e.Accepted r)
    (hasserts : DEBUG = true → e.DebugAsserts r) :
    ∃ r', step DEBUG pathString r e = some r' ∧ Inv r' := by
  cases e with
  | set path node => exact h.set DEBUG pathString path node
  | update path nodes => exact h.update DEBUG pathString path nodes
  | purgeOutstandingWrites => exact h.purgeOutstandingWrites he
  | connection e hwrite =>
    refine connectionStep_spec h.connection he ?_ h.below hasserts
    -- only sets and updates issue puts
    have hissued : e.issued = [] := by
      cases e with
      | put => contradiction
      | _ => rfl
    rw [hissued, List.append_nil, h.completionBlocks]
    exact h.unanswered
  | serverSyncTree e hwrite =>
    obtain ⟨t, ht, hwrites⟩ := r.serverSyncTree.step_of_not_isWrite DEBUG hwrite
    refine ⟨_, congrArg (Option.map _) ht, h.connection, h.called, ?_, ?_⟩
    · show r.unanswered.Subperm t.pendingIds
      rw [FSyncTree.pendingIds, hwrites]
      exact h.unanswered
    · show t.pendingWriteTree.Issued r.writeIdCounter
      rw [hwrites]
      exact h.below

/-- An event that is not accepted traps. -/
theorem step_eq_none {r : FRepo K L Params} {e : Event K L Params} (he : ¬e.Accepted r) :
    step DEBUG pathString r e = none := by
  cases e with
  | connection e hwrite =>
    rw [step, connectionStep, FPersistentConnection.step_eq_none_of_not_accepted he,
      Option.bind_none]
  | purgeOutstandingWrites =>
    -- an answer that was held back finds no write any more
    simp only [Event.Accepted, not_forall] at he
    obtain ⟨put, hmem, hstatus⟩ := he
    obtain ⟨t, ht, hnone, -⟩ := r.serverSyncTree.removeAllWrites_spec DEBUG
    rw [step, FRepo.purgeOutstandingWrites, ht, Option.bind_some]
    have hput : .put put.block put.status put.errorReason ∈
        r.connection.purgeOutstandingWrites.called := by
      simp only [FPersistentConnection.purgeOutstandingWrites, FPersistentConnection.ackPuts,
        List.mem_append, List.mem_map]
      exact Or.inl (Or.inl (Or.inr ⟨put, hmem, rfl⟩))
    exact exec_ackWrite_eq_none _ hnone hput hstatus
  | _ => exact absurd trivial he

/-- Where a step of a debug build does not trap, the assertions have held. -/
theorem debugAsserts_of_step {r r' : FRepo K L Params} {e : Event K L Params}
    (h : step true pathString r e = some r') : e.DebugAsserts r := by
  cases e with
  | connection e hwrite =>
    intro connection hconnection
    obtain ⟨c', hc', hexec⟩ := Option.bind_eq_some_iff.mp h
    obtain rfl := Option.some.inj (hc'.symm.trans hconnection)
    exact ackAsserts_of_exec rfl hexec
  | _ => trivial

/-- Exactly the accepted events do not trap, in a debug build if the assertions hold. -/
theorem isSome_step_iff {r : FRepo K L Params} (h : Inv r) (e : Event K L Params) :
    (step DEBUG pathString r e).isSome = true ↔
      e.Accepted r ∧ (DEBUG = true → e.DebugAsserts r) := by
  constructor
  · intro hsome
    refine ⟨?_, ?_⟩
    · by_contra he
      rw [step_eq_none DEBUG pathString he] at hsome
      contradiction
    · rintro rfl
      obtain ⟨r', hr'⟩ := Option.isSome_iff_exists.mp hsome
      exact debugAsserts_of_step pathString hr'
  · rintro ⟨he, hasserts⟩
    obtain ⟨r', hr', -⟩ := step_spec DEBUG pathString h e he hasserts
    rw [hr', Option.isSome_some]

/-- Every step keeps the invariant. -/
theorem Inv.step {r r' : FRepo K L Params} (h : Inv r) {e : Event K L Params}
    (hr' : step DEBUG pathString r e = some r') : Inv r' := by
  obtain ⟨he, hasserts⟩ :=
    (isSome_step_iff DEBUG pathString h e).mp (by rw [hr', Option.isSome_some])
  obtain ⟨r'', hr'', hinv⟩ := step_spec DEBUG pathString h e he hasserts
  rw [hr'] at hr''
  rwa [Option.some.inj hr'']

/-- A put is answered before a listen, and its write is purged while the answer is held back. -/
def purgeHeldBack : List (Event PlainKey ℕ Unit) :=
  [.connection (.resumeForReason "waiting_for_open") rfl, .connection .retryTimer rfl,
    .connection (.tokenFetched 0 (.ok (some "token"))) rfl,
    .connection (.listen ⟨"/courses", ()⟩ none 0) rfl, .connection .handshake rfl,
    .connection (.message (.response 2 (some "ok") none)) rfl, .set [.a] ⟨.leaf 3, .leaf 3⟩,
    .connection (.message (.response 4 (some "ok") none)) rfl, .purgeOutstandingWrites]

example : (PartialStep.exec (step true fun _ => "/courses/a") init purgeHeldBack).isSome =
    false := by
  decide +kernel

end FRepo

end Database
