import DateCourse.Store.SortedAssoc

/-!
# Delivering puts

What a connection to the server is for: every put is sent, again on each new connection, until it is
answered, and then its completion block is called. How the connection is made, and what else is sent
over it, is left out. While a listen is unanswered the blocks of answered puts are held back, so
that nobody is told of a put before the data that it depends on.

## Main definitions

* `Delivery.apply`: the operations on puts;
* `Delivery.ledger`: the completion blocks of all puts so far.

## Main results

* `Delivery.ledger_apply`: no block is lost and none is called twice;
* `Delivery.Ordered.apply`: puts are sent once over each connection, in their order;
* `Delivery.nothingStuck_apply_iff`: when blocks are held back only for unanswered listens;
* `Delivery.ledger_apply_of_inOrder`: when blocks are called in the order of their puts.
-/

namespace Database

/-- How far a client has come with a connection. -/
inductive Phase
  | offline
  | authenticating
  | connected
  deriving DecidableEq

/-- The puts of a client, by their numbers, and their completion blocks. -/
@[ext]
structure Delivery (Block : Type*) where
  phase : Phase
  /-- The blocks that have been called, in order. -/
  answered : List Block
  /-- The blocks of answered puts that are held back. -/
  held : List Block
  outstanding : List (ℕ × Block)
  counter : ℕ
  /-- The puts that have been sent over the connection in use. -/
  sent : List ℕ
  /-- The unanswered listens. -/
  listens : ℕ
  /-- The unanswered authentications after which the state is restored. -/
  auths : ℕ

namespace Delivery

variable {Block : Type*} {d d' : Delivery Block}

/-- What happens to the puts of a client. -/
inductive Op (Block : Type*)
  | quiet
  | authenticate
  -- the state is restored, with so many listens
  | connect (listens : ℕ)
  | restore (listens : ℕ)
  | authenticated
  | drop (cancels : ℕ → Bool)
  | listen
  | answerListen
  | put (block : Block)
  | answerPut (index : ℕ)
  | purge

/-- The blocks of the puts that an operation issues. -/
def Op.issued : Op Block → List Block
  | put block => [block]
  | _ => []

/-- The number of listens that are sent by an operation that makes the client connected. -/
def Op.connects : Op Block → Option ℕ
  | connect listens | restore listens => some listens
  | authenticated => some 0
  | _ => none

/-- The put that an operation answers. -/
def Op.answeredPut : Op Block → Option ℕ
  | answerPut index => some index
  | _ => none

/-- The operation makes the client connected without restoring the state. -/
def Op.isAuthenticated : Op Block → Bool
  | authenticated => true
  | _ => false

/-- Everything outstanding is sent. -/
def restored (d : Delivery Block) (listens : ℕ) : Delivery Block :=
  { d with
    phase := .connected
    sent := d.sent ++ d.outstanding.map (·.1)
    listens := d.listens + listens }

/-- The blocks that were held back are called. -/
def release (d : Delivery Block) : Delivery Block :=
  { d with answered := d.answered ++ d.held, held := [] }

/-- A put is answered. -/
def answer (d : Delivery Block) (index : ℕ) : Delivery Block :=
  (SortedAssoc.find d.outstanding index).elim d fun block =>
    let d := { d with outstanding := SortedAssoc.erase d.outstanding index }
    -- nothing to wait for
    if d.listens = 0 then { d with answered := d.answered ++ [block] }
    else { d with held := d.held ++ [block] }

/-- The connection is lost. -/
def dropped (d : Delivery Block) (cancels : ℕ → Bool) : Delivery Block :=
  { d with
    phase := .offline
    answered := d.answered ++ (d.outstanding.filter fun e => cancels e.1).map (·.2)
    -- what is not cancelled will be sent again
    outstanding := d.outstanding.filter fun e => !cancels e.1
    sent := []
    listens := 0
    auths := 0 }

/-- A put is issued, and sent if that is possible. -/
def issue (d : Delivery Block) (block : Block) : Delivery Block :=
  { d with
    outstanding := d.outstanding ++ [(d.counter, block)]
    counter := d.counter + 1
    sent := if d.phase = .connected then d.sent ++ [d.counter] else d.sent }

/-- A listen is answered; after the last one, the blocks are called. -/
def answerListen (d : Delivery Block) : Delivery Block :=
  let d := { d with listens := d.listens - 1 }
  if d.listens = 0 then d.release else d

/-- The blocks of all puts are called. -/
def purged (d : Delivery Block) : Delivery Block :=
  let d := d.release
  { d with answered := d.answered ++ d.outstanding.map (·.2), outstanding := [] }

/-- The operation can happen: a connection is made by a client that is offline, and the state is
restored by an authentication that has been asked for. -/
def Op.Enabled (d : Delivery Block) : Op Block → Prop
  | authenticate | connect _ => d.phase = .offline
  | restore _ => 0 < d.auths
  | answerListen => 0 < d.listens
  | _ => True

/-- The operations on puts. -/
def apply (d : Delivery Block) : Op Block → Delivery Block
  | .quiet => d
  | .authenticate => { d with phase := .authenticating, auths := d.auths + 1 }
  | .connect listens => d.restored listens
  | .restore listens => restored { d with auths := d.auths - 1 } listens
  | .authenticated => { d with phase := .connected }
  | .drop cancels => d.dropped cancels
  | .listen => { d with listens := d.listens + 1 }
  | .answerListen => d.answerListen
  | .put block => d.issue block
  | .answerPut index => d.answer index
  | .purge => d.purged

/-! ## No block is lost -/

/-- The blocks that have been called, those that are held back and those of outstanding puts. -/
def ledger (d : Delivery Block) : List Block :=
  d.answered ++ d.held ++ d.outstanding.map (·.2)

/-- Releasing blocks calls them, so none is lost. -/
theorem ledger_release (d : Delivery Block) : d.release.ledger = d.ledger := by
  simp [ledger, release]

/-- A put that is issued comes last. -/
theorem ledger_issue (d : Delivery Block) (block : Block) :
    (d.issue block).ledger = d.ledger ++ [block] := by
  simp [ledger, issue]

/-- An answer moves one block to those that have been called or are held back. -/
theorem ledger_answer (d : Delivery Block) (index : ℕ) : (d.answer index).ledger.Perm d.ledger := by
  rw [answer]
  cases hfind : SortedAssoc.find d.outstanding index with
  | none => exact List.Perm.refl _
  | some block =>
    have hperm := ((SortedAssoc.perm_erase hfind).map (·.2)).symm.append_left (d.answered ++ d.held)
    rw [Option.elim_some]
    dsimp only
    split
    next =>
      -- the block overtakes those that are held back
      refine List.Perm.trans ?_ hperm
      simp only [ledger, List.append_assoc, List.map_cons, List.singleton_append]
      exact (List.perm_middle.symm).append_left d.answered
    next =>
      refine List.Perm.trans (List.Perm.of_eq ?_) hperm
      simp [ledger]

/-- A lost connection loses no block. -/
theorem ledger_dropped (d : Delivery Block) (cancels : ℕ → Bool) :
    (d.dropped cancels).ledger.Perm d.ledger := by
  -- the puts that are cancelled and those that stay are all of them
  have hsplit : ((d.outstanding.filter fun e => cancels e.1).map (·.2) ++
      (d.outstanding.filter fun e => !cancels e.1).map (·.2)).Perm (d.outstanding.map (·.2)) := by
    rw [← List.map_append]
    exact (List.filter_append_perm _ _).map _
  simp only [ledger, dropped, List.append_assoc]
  refine List.Perm.append_left d.answered ?_
  refine List.Perm.trans ?_ (hsplit.append_left d.held)
  rw [← List.append_assoc, ← List.append_assoc]
  exact List.perm_append_comm.append_right _

/-- The answer to a listen loses no block. -/
theorem ledger_answerListen (d : Delivery Block) : d.answerListen.ledger = d.ledger := by
  rw [answerListen]
  dsimp only
  split
  · rw [ledger_release]
    rfl
  · rfl

/-- A purge loses no block. -/
theorem ledger_purged (d : Delivery Block) : d.purged.ledger = d.ledger := by
  simp [ledger, purged, release]

/-- No block is lost, and none is called twice. -/
theorem ledger_apply (d : Delivery Block) (op : Op Block) :
    (d.apply op).ledger.Perm (d.ledger ++ op.issued) := by
  have hnone : d.ledger.Perm (d.ledger ++ []) := List.Perm.of_eq (List.append_nil _).symm
  cases op with
  | put block => exact List.Perm.of_eq (d.ledger_issue block)
  | drop cancels => exact (d.ledger_dropped cancels).trans hnone
  | answerPut index => exact (d.ledger_answer index).trans hnone
  | answerListen => exact (List.Perm.of_eq d.ledger_answerListen).trans hnone
  | purge => exact (List.Perm.of_eq d.ledger_purged).trans hnone
  | _ => exact hnone

/-! ## The order of the blocks -/

/-- What keeps the blocks in the order of their puts: the first outstanding put is answered first,
and not while earlier blocks are held back unless its own is; and no put is cancelled. -/
def Op.InOrder (d : Delivery Block) : Op Block → Prop
  | drop cancels => ∀ e ∈ d.outstanding, cancels e.1 = false
  | answerPut index => ∀ block, SortedAssoc.find d.outstanding index = some block →
      d.outstanding.head? = some (index, block) ∧ (d.listens = 0 → d.held = [])
  | _ => True

/-- An operation in order keeps the order of the blocks. -/
theorem ledger_apply_of_inOrder {op : Op Block} (h : op.InOrder d) :
    (d.apply op).ledger = d.ledger ++ op.issued := by
  have hnone : d.ledger = d.ledger ++ [] := (List.append_nil _).symm
  cases op with
  | put block => exact d.ledger_issue block
  | drop cancels =>
    refine Eq.trans ?_ hnone
    replace h : ∀ e ∈ d.outstanding, cancels e.1 = false := h
    have hcancelled : d.outstanding.filter (fun e => cancels e.1) = [] := by
      simpa [List.filter_eq_nil_iff] using h
    have hkept : d.outstanding.filter (fun e => !cancels e.1) = d.outstanding := by
      simpa [List.filter_eq_self] using h
    simp [ledger, apply, dropped, hcancelled, hkept]
  | answerPut index =>
    refine Eq.trans ?_ hnone
    rw [apply, answer]
    cases hfind : SortedAssoc.find d.outstanding index with
    | none => rfl
    | some block =>
      obtain ⟨hhead, hheld⟩ := h block hfind
      obtain ⟨rest, hrest⟩ := List.head?_eq_some_iff.mp hhead
      -- the first put is the one that goes
      have herase : SortedAssoc.erase d.outstanding index = rest := by
        simp [hrest, SortedAssoc.erase]
      rw [Option.elim_some, herase]
      dsimp only
      split
      next hlistens => simp [ledger, hheld hlistens, hrest]
      next => simp [ledger, hrest]
  | answerListen => exact d.ledger_answerListen.trans hnone
  | purge => exact d.ledger_purged.trans hnone
  | _ => exact hnone

/-! ## Blocks that are held back -/

/-- If blocks are held back while the client is connected, a listen is unanswered, after which they
will be called. -/
def NothingStuck (d : Delivery Block) : Prop :=
  d.phase = .connected → d.held ≠ [] → 0 < d.listens

/-- When the client gets connected, no block is held back, or a listen is sent or unanswered. -/
def Op.Releases (d : Delivery Block) (op : Op Block) : Prop :=
  ∀ listens, op.connects = some listens → d.held = [] ∨ 0 < d.listens + listens

/-- Unless a client gets connected, it does not come to hold back blocks without an unanswered
listen. -/
theorem NothingStuck.apply (h : NothingStuck d) {op : Op Block} (hop : op.connects = none) :
    NothingStuck (d.apply op) := by
  cases op with
  | quiet => exact h
  | authenticate => exact fun hphase => by contradiction
  | connect listens => contradiction
  | restore listens => contradiction
  | authenticated => contradiction
  | drop cancels => exact fun hphase => by contradiction
  | listen => exact fun _ _ => Nat.succ_pos _
  | answerListen =>
    -- only the last listen releases what is held back
    rw [Delivery.apply, answerListen]
    dsimp only
    split
    next => exact fun _ hheld => absurd rfl hheld
    next hlistens => exact fun _ _ => Nat.pos_of_ne_zero hlistens
  | put block => exact h
  | answerPut index =>
    rw [Delivery.apply, answer]
    cases SortedAssoc.find d.outstanding index with
    | none => exact h
    | some block =>
      rw [Option.elim_some]
      dsimp only
      split
      next => exact h
      -- a block is held back only if a listen is unanswered
      next hlistens => exact fun _ _ => Nat.pos_of_ne_zero hlistens
  | purge => exact fun _ hheld => absurd rfl hheld

/-- A client that gets connected holds back blocks only for an unanswered listen exactly if one is
sent or unanswered, or there is nothing to hold back. -/
theorem nothingStuck_apply_iff (h : NothingStuck d) (op : Op Block) :
    NothingStuck (d.apply op) ↔ op.Releases d := by
  cases hop : op.connects with
  | none =>
    refine iff_of_true (h.apply hop) fun listens hlistens => ?_
    rw [hop] at hlistens
    contradiction
  | some listens =>
    have hreleases : op.Releases d ↔ (d.held ≠ [] → 0 < d.listens + listens) := by
      simp [Op.Releases, hop, or_iff_not_imp_left]
    rw [hreleases]
    -- what was held back before is still held back
    cases op <;> simp_all [Op.connects, NothingStuck, Delivery.apply, restored]

/-! ## Sending once -/

/-- The puts that are sent over a connection ascend, so none is sent twice; when the client is
connected, everything outstanding has been sent. -/
structure Ordered (d : Delivery Block) : Prop where
  outstanding_sorted : (d.outstanding.map (·.1)).Pairwise (· < ·)
  outstanding_lt : ∀ e ∈ d.outstanding, e.1 < d.counter
  sent_sorted : d.sent.Pairwise (· < ·)
  sent_lt : ∀ index ∈ d.sent, index < d.counter
  sent_all : d.phase = .connected → ∀ e ∈ d.outstanding, e.1 ∈ d.sent
  sent_none : d.phase ≠ .connected → d.sent = []
  auths_eq : d.auths = if d.phase = .authenticating then 1 else 0

/-- Taking puts out keeps their order. -/
theorem Ordered.of_sublist (h : Ordered d) (hputs : d'.outstanding.Sublist d.outstanding)
    (hcounter : d'.counter = d.counter) (hphase : d'.phase = d.phase) (hsent : d'.sent = d.sent)
    (hauths : d'.auths = d.auths) : Ordered d' := by
  refine ⟨h.outstanding_sorted.sublist (hputs.map _), fun e he => ?_, ?_, ?_, fun hc e he => ?_, ?_,
    ?_⟩
  · rw [hcounter]
    exact h.outstanding_lt e (hputs.subset he)
  · rw [hsent]
    exact h.sent_sorted
  · rw [hsent, hcounter]
    exact h.sent_lt
  · rw [hsent]
    exact h.sent_all (hphase.symm.trans hc) e (hputs.subset he)
  · rw [hphase, hsent]
    exact h.sent_none
  · rw [hauths, hphase]
    exact h.auths_eq

/-- Restoring the state over a new connection sends everything outstanding in order. -/
theorem Ordered.restored (h : Ordered d) (hsent : d.sent = []) (hauths : d.auths = 0)
    (listens : ℕ) : Ordered (d.restored listens) := by
  have hall : (d.restored listens).sent = d.outstanding.map (·.1) := by
    rw [Delivery.restored, hsent, List.nil_append]
  refine ⟨h.outstanding_sorted, h.outstanding_lt, ?_, ?_, fun _ e he => ?_,
    fun hphase => absurd rfl hphase, hauths⟩
  · rw [hall]
    exact h.outstanding_sorted
  · rw [hall]
    intro index hindex
    obtain ⟨e, he, rfl⟩ := List.mem_map.mp hindex
    exact h.outstanding_lt e he
  · rw [hall]
    exact List.mem_map_of_mem he

/-- A put that is issued is sent after the others. -/
theorem Ordered.issue (h : Ordered d) (block : Block) : Ordered (d.issue block) := by
  have hsent : ∀ index ∈ (d.issue block).sent, index < d.counter ∨ index = d.counter := by
    rw [Delivery.issue]
    dsimp only
    split
    next =>
      intro index hindex
      exact (List.mem_append.mp hindex).imp (h.sent_lt index) List.mem_singleton.mp
    next => exact fun index hindex => Or.inl (h.sent_lt index hindex)
  refine ⟨?_, fun e he => ?_, ?_, fun index hindex => ?_, fun hc e he => ?_, fun hc => ?_,
    h.auths_eq⟩
  · -- the new number is above all others
    rw [Delivery.issue, List.map_append]
    refine List.pairwise_append.mpr ⟨h.outstanding_sorted, List.pairwise_singleton _ _, ?_⟩
    intro index hindex new hnew
    obtain ⟨e, he, rfl⟩ := List.mem_map.mp hindex
    rw [List.mem_singleton.mp hnew]
    exact h.outstanding_lt e he
  · rcases List.mem_append.mp he with he | he
    · exact Nat.lt_succ_of_lt (h.outstanding_lt e he)
    · rw [List.mem_singleton.mp he]
      exact Nat.lt_succ_self _
  · rw [Delivery.issue]
    dsimp only
    split
    next =>
      refine List.pairwise_append.mpr ⟨h.sent_sorted, List.pairwise_singleton _ _, ?_⟩
      intro index hindex new hnew
      rw [List.mem_singleton.mp hnew]
      exact h.sent_lt index hindex
    next => exact h.sent_sorted
  · rcases hsent index hindex with hlt | rfl
    · exact Nat.lt_succ_of_lt hlt
    · exact Nat.lt_succ_self _
  · replace hc : d.phase = .connected := hc
    rw [Delivery.issue, if_pos hc]
    rcases List.mem_append.mp he with he | he
    · exact List.mem_append_left _ (h.sent_all hc e he)
    · rw [List.mem_singleton.mp he]
      exact List.mem_append_right _ (List.mem_singleton_self _)
  · replace hc : d.phase ≠ .connected := hc
    rw [Delivery.issue, if_neg hc]
    exact h.sent_none hc

/-- An authentication that does not restore the state finds the client connected. -/
def Op.AuthInOrder (d : Delivery Block) (op : Op Block) : Prop :=
  op.isAuthenticated = true → d.phase = .connected

/-- Every operation keeps the order in which puts are sent. -/
theorem Ordered.apply (h : Ordered d) {op : Op Block} (henabled : op.Enabled d)
    (hauth : op.AuthInOrder d) : Ordered (d.apply op) := by
  have hkeep := List.Sublist.refl d.outstanding
  cases op with
  | quiet => exact h
  | authenticate =>
    replace henabled : d.phase = .offline := henabled
    have hsent := h.sent_none (by simp [henabled])
    have hauths : d.auths = 0 := by simpa [henabled] using h.auths_eq
    refine ⟨h.outstanding_sorted, h.outstanding_lt, h.sent_sorted, h.sent_lt,
      fun hphase => by contradiction, fun _ => hsent, ?_⟩
    show d.auths + 1 = 1
    rw [hauths]
  | connect listens =>
    replace henabled : d.phase = .offline := henabled
    refine h.restored (h.sent_none (by simp [henabled])) ?_ listens
    simpa [henabled] using h.auths_eq
  | restore listens =>
    -- an authentication has been asked for while authenticating, and only then
    replace henabled : 0 < d.auths := henabled
    have hphase : d.phase = .authenticating := by
      by_contra hphase
      rw [h.auths_eq, if_neg hphase] at henabled
      exact absurd henabled (Nat.lt_irrefl 0)
    have hone : d.auths = 1 := by rw [h.auths_eq, if_pos hphase]
    have hsent := h.sent_none (by simp [hphase])
    have hall : Ordered (Delivery.restored { d with phase := .offline, auths := 0 } listens) := by
      refine Ordered.restored (d := { d with phase := .offline, auths := 0 }) ?_ hsent rfl listens
      exact ⟨h.outstanding_sorted, h.outstanding_lt, h.sent_sorted, h.sent_lt,
        fun hc => by contradiction, fun _ => hsent, rfl⟩
    rw [Delivery.apply, hone]
    exact hall
  | authenticated =>
    exact h.of_sublist hkeep rfl (hauth rfl).symm rfl rfl
  | drop cancels =>
    have hfilter := List.filter_sublist (l := d.outstanding) (p := fun e => !cancels e.1)
    exact ⟨h.outstanding_sorted.sublist (hfilter.map _),
      fun e he => h.outstanding_lt e (hfilter.subset he), List.Pairwise.nil,
      fun _ hindex => by contradiction, fun hc => by contradiction, fun _ => rfl, rfl⟩
  | listen => exact h.of_sublist hkeep rfl rfl rfl rfl
  | answerListen =>
    rw [Delivery.apply, answerListen]
    dsimp only
    split <;> exact h.of_sublist hkeep rfl rfl rfl rfl
  | put block => exact h.issue block
  | answerPut index =>
    rw [Delivery.apply, answer]
    cases SortedAssoc.find d.outstanding index with
    | none => exact h
    | some block =>
      have herase := SortedAssoc.erase_sublist d.outstanding index
      rw [Option.elim_some]
      dsimp only
      split <;> exact h.of_sublist herase rfl rfl rfl rfl
  | purge => exact h.of_sublist (List.nil_sublist _) rfl rfl rfl rfl

end Delivery

end Database
