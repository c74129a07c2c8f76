import DateCourse.Database.ConnectionRun

/-!
# Puts over a connection

What happens to the puts of a client in a run of the connection, from what the operations on puts
do: no completion block is lost or called twice; over each connection the puts are sent in their
order, each of them once; and while the client is connected blocks are held back only as long as a
listen is unanswered, unless the client gets connected without sending one.

## Main definitions

* `FPersistentConnection.completionBlocks`: the completion blocks of all puts so far;
* `FPersistentConnection.SentOnce`, `FPersistentConnection.NothingStuck`: what a state should be
  like;
* `FPersistentConnection.OpCase`: which events do what for puts.

## Main results

* `FPersistentConnection.completionBlocks_perm`: each put is answered once, held back or
  outstanding;
* `FPersistentConnection.along_sentOnce`: puts are sent once over each connection;
* `FPersistentConnection.along_nothingStuck_iff`: when blocks are held back only for listens;
* `FPersistentConnection.completionBlocks_eq`: when blocks are called in the order of their puts.
-/

namespace Database

namespace FPersistentConnection

variable {Params Data Block : Type*} [FQueryParams Params]
  {c c' : FPersistentConnection Params Data Block}
  {e : Event Params Data Block}

/-! ## Operations and events -/

/-- The completion blocks of the puts that an event issues. -/
def Event.issued : Event Params Data Block → List Block
  | .put _ _ onComplete => [onComplete]
  | _ => []

/-- What an event may do for puts. -/
inductive OpCase (c : FPersistentConnection Params Data Block) :
    Event Params Data Block → Delivery.Op Block → Prop
  | drop {e : Event Params Data Block} (hissued : e.issued = []) : OpCase c e (.drop c.cancels)
  | answerPut {rn : ℕ} {status data : Option String} {index : ℕ} {onComplete : Block}
      (hfind : SortedAssoc.find c.requestCBHash rn = some (.put index onComplete)) :
      OpCase c (.message (.response rn status data)) (.answerPut index)
  | put {action : PutAction} {request : PutRequest Data} {onComplete : Block} :
      OpCase c (.put action request onComplete) (.put onComplete)
  | other {e : Event Params Data Block} {op : Delivery.Op Block} (hissued : e.issued = [])
      (hop : op.issued = []) (horder : ∀ d, op.InOrder d) : OpCase c e op

theorem opCase_quiet (hissued : e.issued = []) : OpCase c e .quiet :=
  .other hissued rfl fun _ => trivial

theorem opCase_closes (hissued : e.issued = []) : OpCase c e c.closes := by
  rw [closes]
  split
  · exact .drop hissued
  · exact opCase_quiet hissued

theorem opCase_restores (hissued : e.issued = []) : OpCase c e c.restores := by
  rw [restores]
  split <;> exact .other hissued rfl fun _ => trivial

/-- An answer does what the block that waits for it does. -/
theorem opCase_answers {rn : ℕ} {status data : Option String} {block : ResponseBlock Params Block}
    (hfind : SortedAssoc.find c.requestCBHash rn = some block) :
    OpCase c (.message (.response rn status data)) (c.answers status block) := by
  cases block with
  | auth restoreStateAfterComplete =>
    rw [answers]
    split
    next => split <;> exact .other rfl rfl fun _ => trivial
    next => exact opCase_closes rfl
  | put index onComplete => exact .answerPut hfind
  | listen listenSpec => exact .other rfl rfl fun _ => trivial
  | onDisconnect onComplete => exact opCase_quiet rfl
  | stats => exact opCase_quiet rfl

/-- What each event does for puts. -/
theorem opCase (c : FPersistentConnection Params Data Block) (e : Event Params Data Block) :
    OpCase c e (c.op e) := by
  cases e with
  | interruptForReason reason => exact opCase_closes rfl
  | connectionLost => exact opCase_closes rfl
  | reset => exact opCase_closes rfl
  | shutdown => exact opCase_closes rfl
  | put action request onComplete => exact .put
  | purgeOutstandingWrites => exact .other rfl rfl fun _ => trivial
  | listen query tagId onComplete =>
    rw [op]
    split <;> exact .other rfl rfl fun _ => trivial
  | handshake =>
    rw [op]
    split
    · exact opCase_restores rfl
    · exact opCase_quiet rfl
  | message message =>
    cases message with
    | authRevoked => exact opCase_closes rfl
    | response rn status data =>
      rw [op, messageOp]
      cases hfind : SortedAssoc.find c.requestCBHash rn with
      | none => exact opCase_quiet rfl
      | some block => exact opCase_answers hfind
    | error error => exact opCase_quiet rfl
    | listenRevoked path => exact opCase_quiet rfl
  | _ => exact opCase_quiet rfl

/-- An event issues the puts that its operation issues. -/
theorem issued_op (c : FPersistentConnection Params Data Block) (e : Event Params Data Block) :
    (c.op e).issued = e.issued := by
  have hcase := c.opCase e
  generalize c.op e = op at hcase ⊢
  cases hcase with
  | drop hissued => exact hissued.symm
  | answerPut => rfl
  | put => rfl
  | other hissued hop => rw [hissued, hop]

/-- The client is connected for puts when its connection is. -/
theorem phase_eq_connected_iff :
    c.delivery.phase = .connected ↔ c.connectionState = .connected := by
  show c.connectionState.phase = .connected ↔ _
  cases c.connectionState <;> simp [ConnectionState.phase]

/-! ## What the states of a run should be like -/

/-- The completion blocks of all puts: those that have been called, those that are held back and
those of outstanding puts. -/
def completionBlocks (c : FPersistentConnection Params Data Block) : List Block :=
  c.called.filterMap Call.putBlock ++ c.putsToAck.map (·.block) ++
    c.outstandingPuts.map (·.2.onCompleteBlock)

/-- The ledger of the puts is the list of completion blocks. -/
theorem ledger_delivery (c : FPersistentConnection Params Data Block) :
    c.delivery.ledger = c.completionBlocks := by
  simp [Delivery.ledger, completionBlocks, delivery, putBlocks]

/-- The puts that have been sent over the connection in use are in their order, none of them twice,
and a client that is connected has sent all outstanding ones. -/
structure SentOnce (c : FPersistentConnection Params Data Block) : Prop where
  sent_ascending : c.sentPuts.Pairwise (· < ·)
  sent_all : c.connectionState = .connected → ∀ e ∈ c.outstandingPuts, e.1 ∈ c.sentPuts

/-- Puts that are sent in their order are sent once. -/
theorem sentOnce_of_ordered (h : Delivery.Ordered c.delivery) : SentOnce c := by
  refine ⟨h.sent_sorted, fun hc e he => ?_⟩
  exact h.sent_all (phase_eq_connected_iff.mpr hc) _ (mem_putBlocks he)

/-- No put has been sent before the first event. -/
theorem ordered_init :
    Delivery.Ordered (init : FPersistentConnection Params Data Block).delivery :=
  ⟨List.Pairwise.nil, fun _ he => by contradiction, List.Pairwise.nil, fun _ he => by contradiction,
    fun hphase => by contradiction, fun _ => rfl, rfl⟩

/-- If blocks are held back while the client is connected, a listen is unanswered. -/
def NothingStuck (c : FPersistentConnection Params Data Block) : Prop :=
  c.connectionState = .connected → c.putsToAck ≠ [] → 0 < c.unackedListensCount

/-- No block is held back before the first event. -/
theorem nothingStuck_init : NothingStuck (init : FPersistentConnection Params Data Block) :=
  fun hc => by contradiction

/-- Blocks are stuck if they are so for puts. -/
theorem nothingStuck_delivery_iff : Delivery.NothingStuck c.delivery ↔ NothingStuck c := by
  rw [Delivery.NothingStuck, phase_eq_connected_iff, NothingStuck]
  simp [delivery]

/-! ## What the events of a run should be like -/

/-- An authentication that does not restore the state is answered when the client is connected, as
it is where authentications are answered in the order in which they have been sent. -/
def AuthInOrder (c : FPersistentConnection Params Data Block) (e : Event Params Data Block) :
    Prop :=
  (c.op e).isAuthenticated = true → c.connectionState = .connected

instance (c : FPersistentConnection Params Data Block) (e : Event Params Data Block) :
    Decidable (AuthInOrder c e) :=
  inferInstanceAs (Decidable (_ → _))

/-- When an event makes the client connected, no block is held back, or a listen is sent then or has
been sent before. -/
def Releases (c : FPersistentConnection Params Data Block) (e : Event Params Data Block) : Prop :=
  ∀ listens ∈ (c.op e).connects, c.putsToAck = [] ∨ 0 < c.unackedListensCount + listens

instance (c : FPersistentConnection Params Data Block) (e : Event Params Data Block) :
    Decidable (Releases c e) :=
  inferInstanceAs (Decidable (∀ _ ∈ _, _))

/-- An event releases blocks if its operation does. -/
theorem releases_op_iff : (c.op e).Releases c.delivery ↔ Releases c e := by
  simp [Delivery.Op.Releases, Releases, delivery, Option.mem_def]

/-- The server answers puts in their order: the put that is answered has the least number of those
that are outstanding. -/
def AnswersInOrder (c : FPersistentConnection Params Data Block)
    (e : Event Params Data Block) : Prop :=
  ∀ index ∈ (c.op e).answeredPut, ∀ put ∈ c.outstandingPuts, index ≤ put.1

/-- No outstanding put is a transaction. -/
def NoTransactions (c : FPersistentConnection Params Data Block) : Prop :=
  ∀ put ∈ c.outstandingPuts, put.2.request.hash = none

/-- Puts are answered in their order, no block is held back without an unanswered listen, and there
is no transaction that could be cancelled. -/
structure InOrder (c : FPersistentConnection Params Data Block) (e : Event Params Data Block) :
    Prop where
  answers : AnswersInOrder c e
  releases : Releases c e
  noTransactions : NoTransactions c

instance (c : FPersistentConnection Params Data Block) (e : Event Params Data Block) :
    Decidable (InOrder c e) :=
  have : Decidable (AnswersInOrder c e) := inferInstanceAs (Decidable (∀ _ ∈ _, _))
  have : Decidable (NoTransactions c) := inferInstanceAs (Decidable (∀ _ ∈ _, _))
  decidable_of_iff (AnswersInOrder c e ∧ Releases c e ∧ NoTransactions c)
    ⟨fun h => ⟨h.1, h.2.1, h.2.2⟩, fun h => ⟨h.answers, h.releases, h.noTransactions⟩⟩

/-- The put with the least number is the first. -/
theorem head?_putBlocks (hinv : Inv c) {index : ℕ} {block : Block}
    (hmem : (index, block) ∈ c.putBlocks) (hleast : ∀ put ∈ c.outstandingPuts, index ≤ put.1) :
    c.putBlocks.head? = some (index, block) := by
  have hsorted := hinv.pending.puts_sorted
  cases hputs : c.putBlocks with
  | nil =>
    rw [hputs] at hmem
    contradiction
  | cons first rest =>
    rw [hputs] at hmem hsorted
    rcases List.mem_cons.mp hmem with rfl | hrest
    · rfl
    · have hlt := (SortedAssoc.sorted_cons.mp hsorted).1 _ hrest
      obtain ⟨put, hput, rfl⟩ := List.mem_map.mp (hputs ▸ List.mem_cons_self)
      exact absurd (Nat.compare_eq_lt.mp hlt) (Nat.not_lt.mpr (hleast put hput))

/-- An event in order does an operation in order. -/
theorem InOrder.op (h : InOrder c e) (hinv : Inv c) (hstuck : NothingStuck c) :
    (c.op e).InOrder c.delivery := by
  have hcase := c.opCase e
  have hanswers := h.answers
  rw [AnswersInOrder] at hanswers
  generalize c.op e = op at hcase hanswers ⊢
  cases hcase with
  | drop hissued =>
    intro e he
    obtain ⟨put, hput, rfl⟩ := List.mem_map.mp he
    rw [cancels_eq hinv.pending hput, h.noTransactions put hput]
    rfl
  | @answerPut rn status data index onComplete hfind =>
    intro block hblock
    have hmem := (SortedAssoc.find_eq_some_iff hinv.pending.puts_sorted).mp hblock
    refine ⟨head?_putBlocks hinv hmem (hanswers index rfl), fun hlistens => ?_⟩
    -- puts are sent by clients that are connected
    have hperm := (SortedAssoc.perm_erase hfind).map (·.2)
    have hc := hinv.puts_connected _ (hperm.mem_iff.mpr List.mem_cons_self) rfl
    show c.putsToAck.map (·.block) = []
    rw [List.map_eq_nil_iff]
    by_contra hne
    exact absurd hlistens (Nat.pos_iff_ne_zero.mp (hstuck hc hne))
  | put => trivial
  | other _ _ horder => exact horder _

/-! ## Runs -/

variable [DecidableEq Params]

/-- In every run, the completion block of each put has been called once, is held back, or belongs to
an outstanding put. -/
theorem completionBlocks_perm (es : List (Event Params Data Block))
    (hc : PartialStep.exec step init es = some c) :
    c.completionBlocks.Perm (es.flatMap Event.issued) := by
  let H (pre : List (Event Params Data Block)) (c : FPersistentConnection Params Data Block) :=
    Inv c ∧ c.delivery.ledger.Perm (pre.flatMap Event.issued)
  have hH : ∀ pre c e c', H pre c → True → step c e = some c' → H (pre ++ [e]) c' := by
    rintro pre c e c' ⟨hinv, hledger⟩ - hc'
    obtain ⟨hinv', -, hdelivery⟩ := hinv.does hc'
    refine ⟨hinv', ?_⟩
    rw [hdelivery, List.flatMap_append, List.flatMap_singleton, ← issued_op c e]
    exact (Delivery.ledger_apply _ _).trans (hledger.append_right _)
  have hrun : PartialStep.EachStep step (fun _ _ => True) init es :=
    PartialStep.eachStep_of_inv (K := fun _ => True) es
      (fun _ _ _ _ => ⟨trivial, fun _ _ => trivial⟩) trivial
  have hend := PartialStep.exec_history hH es ⟨inv_init, List.Perm.refl _⟩ hrun hc
  rw [← ledger_delivery]
  exact hend.2

/-- A client gets connected, listens, and puts twice; the first put is answered before the
listen. -/
def listenAndPut : List (Event Unit Unit ℕ) :=
  [.resumeForReason "waiting_for_open", .retryTimer, .tokenFetched 0 (.ok (some "token")),
    .listen ⟨"/courses", ()⟩ none 0, .handshake, .message (.response 2 (some "ok") none),
    .put .put ⟨"/courses/a", (), none⟩ 7, .put .merge ⟨"/courses/b", (), none⟩ 8,
    .message (.response 4 (some "ok") none), .message (.response 3 (some "ok") none)]

/-- The run does not trap. -/
theorem exists_exec_listenAndPut : ∃ c, PartialStep.exec step init listenAndPut = some c :=
  Option.isSome_iff_exists.mp (by decide +kernel)

/-- When the run ends the block of the first put has been called, and that of the second belongs to
an outstanding put. -/
theorem completionBlocks_perm_listenAndPut :
    ∃ c, PartialStep.exec step init listenAndPut = some c ∧ c.completionBlocks.Perm [7, 8] := by
  obtain ⟨c, hc⟩ := exists_exec_listenAndPut
  exact ⟨c, hc, completionBlocks_perm listenAndPut hc⟩

/-- Along every run in which authentications are answered in order, puts are sent once over each
connection. -/
theorem along_sentOnce (es : List (Event Params Data Block))
    (h : PartialStep.EachStep step AuthInOrder init es) :
    PartialStep.Along step SentOnce init es := by
  refine PartialStep.along_of_eachStep (K := fun c => Inv c ∧ Delivery.Ordered c.delivery)
    (fun c hc => sentOnce_of_ordered hc.2) ?_ es ⟨inv_init, ordered_init⟩ h
  rintro c e c' ⟨hinv, hordered⟩ hauth hc'
  obtain ⟨hinv', henabled, hdelivery⟩ := hinv.does hc'
  refine ⟨hinv', ?_⟩
  rw [hdelivery]
  exact hordered.apply henabled fun hop => phase_eq_connected_iff.mpr (hauth hop)

/-- In the run both puts are sent once over the connection. -/
theorem along_sentOnce_listenAndPut : PartialStep.Along step SentOnce init listenAndPut :=
  along_sentOnce listenAndPut (by decide +kernel)

/-- A step from a state in which nothing is stuck leads to another one exactly if it releases what
is held back, or traps. -/
theorem releases_iff (hinv : Inv c) (hstuck : NothingStuck c) (e : Event Params Data Block) :
    Releases c e ↔ ∀ c', step c e = some c' → NothingStuck c' := by
  have happly := Delivery.nothingStuck_apply_iff (nothingStuck_delivery_iff.mpr hstuck) (c.op e)
  rw [releases_op_iff] at happly
  by_cases he : e.Accepted c
  · obtain ⟨c', hc', -, -, hdelivery⟩ := step_spec hinv e he
    rw [← hdelivery, nothingStuck_delivery_iff] at happly
    rw [← happly, hc']
    constructor
    · rintro hstuck' _ ⟨⟩
      exact hstuck'
    · exact fun hstuck' => hstuck' c' rfl
  · refine iff_of_true (fun listens hlistens => ?_) fun c' hc' => ?_
    · -- an event that traps does not make the client connected
      cases e with
      | listen query tagId onComplete =>
        rw [op] at hlistens
        split at hlistens <;> contradiction
      | unlisten query tagId => contradiction
      | message message =>
        cases message with
        | error error => contradiction
        | _ => exact absurd trivial he
      | _ => exact absurd trivial he
    · rw [step_eq_none_of_not_accepted he] at hc'
      contradiction

/-- Along a run blocks are held back while the client is connected only as long as a listen is
unanswered, exactly if, whenever the client gets connected, no block is held back or a listen is
sent or unanswered. -/
theorem along_nothingStuck_iff (es : List (Event Params Data Block)) :
    PartialStep.Along step NothingStuck init es ↔ PartialStep.EachStep step Releases init es :=
  PartialStep.along_iff_eachStep (K := Inv) (fun _ _ _ hinv _ _ hc' => (hinv.does hc').inv)
    (fun _ e hinv hstuck => releases_iff hinv hstuck e) es inv_init nothingStuck_init

-- the connection is lost while a block is held back, and the listen is given up before the next one
example : ¬PartialStep.EachStep step Releases init (listenAndPut.take 9 ++
    [.connectionLost, .unlisten ⟨"/courses", ()⟩ none, .retryTimer, .tokenFetched 0 (.ok none),
      .handshake]) := by
  decide +kernel

/-- In a run in which puts are answered in their order, none is a transaction, and no block is held
back without an unanswered listen, the completion blocks are called in the order of their puts. -/
theorem completionBlocks_eq (es : List (Event Params Data Block))
    (h : PartialStep.EachStep step InOrder init es)
    (hc : PartialStep.exec step init es = some c) :
    c.completionBlocks = es.flatMap Event.issued := by
  let H (pre : List (Event Params Data Block)) (c : FPersistentConnection Params Data Block) :=
    (Inv c ∧ NothingStuck c) ∧ c.delivery.ledger = pre.flatMap Event.issued
  have hH : ∀ pre c e c', H pre c → InOrder c e → step c e = some c' → H (pre ++ [e]) c' := by
    rintro pre c e c' ⟨⟨hinv, hstuck⟩, hledger⟩ horder hc'
    obtain ⟨hinv', -, hdelivery⟩ := hinv.does hc'
    refine ⟨⟨hinv', (releases_iff hinv hstuck e).mp horder.releases c' hc'⟩, ?_⟩
    rw [hdelivery, List.flatMap_append, List.flatMap_singleton, ← issued_op c e, ← hledger]
    exact Delivery.ledger_apply_of_inOrder (horder.op hinv hstuck)
  have hend := PartialStep.exec_history hH es ⟨⟨inv_init, nothingStuck_init⟩, rfl⟩ h hc
  rw [← ledger_delivery]
  exact hend.2

/-- In the run the first put is answered while the second is outstanding, so the blocks are in the
order of the puts. -/
theorem completionBlocks_eq_listenAndPut :
    ∃ c, PartialStep.exec step init listenAndPut = some c ∧ c.completionBlocks = [7, 8] := by
  obtain ⟨c, hc⟩ := exists_exec_listenAndPut
  exact ⟨c, hc, completionBlocks_eq listenAndPut (by decide +kernel) hc⟩

end FPersistentConnection

end Database
