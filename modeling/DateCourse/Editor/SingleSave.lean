import DateCourse.Editor.SaveChain

/-!
# One save chain

A single call of `saveItinerary` on a fresh controller, told from outside: an `Account` writes down
what the itinerary holds when the turn of an index comes and how each callback of the chain ends,
and nothing that the chain itself remembers. `saveItinerary_chain` says what the chain makes of
these outcomes: which photos it records, where it stands and when it registers its course.

## Main definitions

* `Save.Account` and `Account.record`: the outcomes of the chain, written down event by event;
* `Account.Succeeded`, `Account.Failed` and `Account.StoppedAt`: what they say about an index;
* `Save.ChainSpec`: the chain does what these outcomes ask for;
* `Account.At`: the accounts a chain can have at each of its stages.

## Main results

* `turn_at`: a call of `savePhoto` leaves the account at the stage it moves the attempt to;
* `matches_step`: so does every event;
* `saveItinerary_chain`: the chain meets `ChainSpec` in every state.
-/

namespace DateCourse.Save

open TreeStore SavingController

variable {Image Data : Type} {services : Services Image Data}

/-! ## The account of a chain -/

/-- The outcomes of one chain. -/
structure Account where
  /-- For each index whose turn has come, in order: its location has a photo that is resized and
  encoded. -/
  encoded : List (ℕ × Bool)
  /-- For each answer of `putData`, in order: its index, and it has metadata and no error. -/
  uploaded : List (ℕ × Bool)
  /-- For each answer of `downloadURL`, in order: its index, and it has a URL. -/
  located : List (ℕ × Bool)
  /-- For each answer of the database: it has no error. -/
  written : List Bool
  /-- The number of locations at the last turn. -/
  count : ℕ
  /-- The user signed in at the last turn. -/
  user : Option String
  /-- The places picked so far. -/
  added : List GMSPlace

namespace Account

/-- The account before "Yes" is tapped. -/
def start : Account :=
  { encoded := [], uploaded := [], located := [], written := [], count := 0, user := none,
    added := [] }

/-- The turn of index `k` comes in state `s`. -/
def turn (services : Services Image Data) (s : State Image Data) (o : Account) (k : ℕ) : Account :=
  { o with
    encoded := o.encoded ++ (s.itinerary.locations[k]?.map fun location =>
      (k, ((location.firstPhoto.bind services.resizedTo1MB).bind
        services.pngRepresentation).isSome)).toList,
    count := s.itinerary.locations.length,
    user := s.currentUser }

/-- What an event in state `s` adds to the account. The turn of index 0 comes with "Yes", that of
`k + 1` with the URL of `k`; an answer counts if the attempt waits for it. -/
def record (services : Services Image Data) (s : State Image Data) (o : Account) :
    Event Image → Account
  | .controller .yes => o.turn services s 0
  | .controller (.putData a metadata error) =>
    match s.controller.stageOf a with
    | some (.putData k _ _) => { o with uploaded := o.uploaded ++ [(k, metadata && !error)] }
    | _ => o
  | .controller (.downloadURL a url) =>
    match s.controller.stageOf a with
    | some (.downloadURL k _ _) =>
      let o := { o with located := o.located ++ [(k, url)] }
      if url then o.turn services s (k + 1) else o
    | _ => o
  | .controller (.updateChildValues a err) =>
    match s.controller.stageOf a with
    | some (.updateChildValues _) => { o with written := o.written ++ [!err] }
    | _ => o
  | .addLocation place => { o with added := o.added ++ [place] }
  | .addPhotoToLocation _ _ | .authStateChanged _ => o

/-- The photo of location `i` has been encoded and uploaded, and its URL has arrived. -/
def Succeeded (o : Account) (i : ℕ) : Prop :=
  (i, true) ∈ o.encoded ∧ (i, true) ∈ o.uploaded ∧ (i, true) ∈ o.located

/-- One of the three has failed for location `i`. -/
def Failed (o : Account) (i : ℕ) : Prop :=
  (i, false) ∈ o.encoded ∨ (i, false) ∈ o.uploaded ∨ (i, false) ∈ o.located

/-- The chain has come to index `k` and no further: location `k` has failed or its answers are
outstanding, or there is no location `k` and nobody is signed in. -/
def StoppedAt (o : Account) (k : ℕ) : Prop :=
  (∀ i < k, o.Succeeded i) ∧ (k < o.count ∧ ¬ o.Succeeded k ∨ k = o.count ∧ o.user = none)

end Account

/-- The chain waits for the answer that the account lacks for index `k`. -/
def Waits (o : Account) (k : ℕ) (stage : Stage Image Data) : Prop :=
  (k ∉ o.uploaded.map Prod.fst ∧ ∃ n ref, stage = .putData k n ref) ∨
    ((k, true) ∈ o.uploaded ∧ k ∉ o.located.map Prod.fst ∧ ∃ n ref, stage = .downloadURL k n ref)

/-- What the only attempt of a controller has done so far, given the outcomes of its callbacks. -/
structure ChainSpec (services : Services Image Data) (itinerary : CurrentItinerary Image)
    (s : State Image Data) (o : Account) (att : Attempt Image Data) : Prop where
  attempts : s.controller.attempts = [att]
  /-- The itinerary has grown by the places picked meanwhile. -/
  places : s.itinerary.places = itinerary.places ++ o.added
  /-- The indices are processed strictly as 0, 1, 2, ... -/
  processed : att.processed = List.range att.processed.length
  /-- They are those whose turn has come. -/
  processed_eq : att.processed = o.encoded.map Prod.fst
  /-- Once all before it have succeeded, a location succeeds, or fails and stops the chain, or the
  chain waits for it. -/
  goesOn : ∀ k < o.count, (∀ i < k, o.Succeeded i) →
    o.Succeeded k ∨ o.Failed k ∧ att.stage = .failed k ∨ Waits o k att.stage
  /-- At most one course is registered. -/
  registeredOnce : s.controller.registered.length ≤ 1
  /-- A course is registered if and only if every index up to the count read at the last turn has
  succeeded and a user was signed in. -/
  registered_iff : s.controller.registered.length = 1 ↔
    (∀ i < o.count, o.Succeeded i) ∧ o.user ≠ none
  /-- The completion is called at most once. -/
  completedOnce : att.completions ≤ 1
  /-- It is called if and only if the database has stored the course. -/
  completed_iff : att.completions = 1 ↔ true ∈ o.written
  /-- Every recorded URL is one of the location at its index. -/
  photoIDs : ∀ ref ∈ s.controller.photoIDs, ref.From services s.itinerary.places
  /-- The recorded URLs are those of the locations that have succeeded, in order. -/
  recorded : ∃ n, s.controller.photoIDs.map (·.index) = List.range n ∧
    ∀ i, o.Succeeded i ↔ i < n
  /-- If the chain stops at index `k`, it has recorded the URLs of `0, ..., k - 1`, in order, and
  nothing is written to the database. -/
  stopped : ∀ k, o.StoppedAt k →
    s.controller.photoIDs.map (·.index) = List.range k ∧ s.controller.registered = []

/-! ## The account at each stage -/

namespace Account

/-- The outcomes of the first `k` indices, all of them successes. -/
def successes (k : ℕ) : List (ℕ × Bool) := (List.range k).map (·, true)

@[simp]
theorem mem_successes {i k : ℕ} {b : Bool} : (i, b) ∈ successes k ↔ i < k ∧ b = true := by
  simp [successes, eq_comm]

@[simp]
theorem map_fst_successes (k : ℕ) : (successes k).map Prod.fst = List.range k := by
  simp [successes, Function.comp_def]

theorem successes_succ (k : ℕ) : successes (k + 1) = successes k ++ [(k, true)] := by
  simp [successes, List.range_succ]

/-- The accounts that a chain can have at a stage. -/
inductive At (o : Account) : Stage Image Data → Prop
  | putData {k n : ℕ} {ref : StorageReference Image Data}
      (he : o.encoded = successes (k + 1)) (hu : o.uploaded = successes k)
      (hl : o.located = successes k) (hw : o.written = []) : At o (.putData k n ref)
  | downloadURL {k n : ℕ} {ref : StorageReference Image Data}
      (he : o.encoded = successes (k + 1)) (hu : o.uploaded = successes (k + 1))
      (hl : o.located = successes k) (hw : o.written = []) : At o (.downloadURL k n ref)
  | noPhoto {k : ℕ}
      (he : o.encoded = successes k ++ [(k, false)]) (hu : o.uploaded = successes k)
      (hl : o.located = successes k) (hw : o.written = []) : At o (.failed k)
  | notUploaded {k : ℕ}
      (he : o.encoded = successes (k + 1)) (hu : o.uploaded = successes k ++ [(k, false)])
      (hl : o.located = successes k) (hw : o.written = []) : At o (.failed k)
  | noURL {k : ℕ}
      (he : o.encoded = successes (k + 1)) (hu : o.uploaded = successes (k + 1))
      (hl : o.located = successes k ++ [(k, false)]) (hw : o.written = []) : At o (.failed k)
  | ended {k : ℕ} (he : o.encoded = successes k) (hu : o.uploaded = successes k)
      (hl : o.located = successes k) (hw : o.written = []) : At o (.ended k)
  | updateChildValues {k : ℕ} (he : o.encoded = successes k) (hu : o.uploaded = successes k)
      (hl : o.located = successes k) (hw : o.written = []) : At o (.updateChildValues k)
  | rejected {k : ℕ} (he : o.encoded = successes k) (hu : o.uploaded = successes k)
      (hl : o.located = successes k) (hw : o.written = [false]) : At o (.rejected k)
  | finished {k : ℕ} (he : o.encoded = successes k) (hu : o.uploaded = successes k)
      (hl : o.located = successes k) (hw : o.written = [true]) : At o (.finished k)

section At

variable {o : Account} {stage : Stage Image Data}

/-- The indices that have succeeded are those before the stage's index. -/
theorem At.succeeded_iff (h : o.At stage) (i : ℕ) : o.Succeeded i ↔ i < stage.index := by
  cases h <;> simp only [Succeeded, *, mem_successes, List.mem_append, List.mem_singleton,
    Prod.mk.injEq, Stage.index] <;> grind

/-- The indices whose turn has come are those that the chain has reached. -/
theorem At.map_fst_encoded (h : o.At stage) :
    o.encoded.map Prod.fst = List.range stage.reached := by
  cases h <;> simp only [*, List.map_append, map_fst_successes, Stage.reached, List.range_succ,
    List.map_cons, List.map_nil]

/-- The chain is completed when the database has stored its course. -/
theorem At.completions_iff (h : o.At stage) : stage.completions = 1 ↔ true ∈ o.written := by
  cases h <;> simp [*, Stage.completions]

/-- A chain that is at an index with all before it done waits there or has failed there, unless
its photos are all saved. -/
theorem At.goesOn (h : o.At stage) :
    o.Failed stage.index ∧ stage = .failed stage.index ∨ Waits o stage.index stage ∨
      (∃ k, stage = .ended k) ∨ stage.registrations = 1 := by
  cases h with
  | putData he hu hl hw =>
    refine Or.inr (Or.inl (Or.inl ⟨?_, _, _, rfl⟩))
    simp [hu, Stage.index]
  | downloadURL he hu hl hw =>
    refine Or.inr (Or.inl (Or.inr ⟨?_, ?_, _, _, rfl⟩))
    · simp [hu, Stage.index]
    · simp [hl, Stage.index]
  | noPhoto he hu hl hw => exact Or.inl ⟨Or.inl (by simp [he, Stage.index]), rfl⟩
  | notUploaded he hu hl hw => exact Or.inl ⟨Or.inr (Or.inl (by simp [hu, Stage.index])), rfl⟩
  | noURL he hu hl hw => exact Or.inl ⟨Or.inr (Or.inr (by simp [hl, Stage.index])), rfl⟩
  | ended he hu hl hw => exact Or.inr (Or.inr (Or.inl ⟨_, rfl⟩))
  | updateChildValues | rejected | finished => exact Or.inr (Or.inr (Or.inr rfl))

/-- The places picked do not matter. -/
theorem At.added (h : o.At stage) (added : List GMSPlace) :
    ({ o with added } : Account).At stage := by
  cases h with
  | noPhoto he hu hl hw => exact .noPhoto he hu hl hw
  | notUploaded he hu hl hw => exact .notUploaded he hu hl hw
  | noURL he hu hl hw => exact .noURL he hu hl hw
  | _ => constructor <;> assumption

end At

end Account

/-! ## The account along a run -/

/-- The account of the only attempt of a controller, up to state `s`. -/
structure Account.Matches (itinerary : CurrentItinerary Image) (s : State Image Data)
    (o : Account) (att : Attempt Image Data) : Prop where
  attempts : s.controller.attempts = [att]
  outcomes : o.At att.stage
  count : o.count = att.lastCount
  user : o.user = att.lastUser
  places : s.itinerary.places = itinerary.places ++ o.added

/-- Changing the only attempt changes the list of attempts in its one entry. -/
theorem attempts_update_zero {c : SavingController Image Data} {att : Attempt Image Data}
    (h : c.attempts = [att]) (f : Attempt Image Data → Attempt Image Data) :
    (c.update 0 f).attempts = [f att] := by
  simp [SavingController.update, h]

/-- An attempt that is at some stage is the only one. -/
theorem stage_of_stageOf {c : SavingController Image Data} {att : Attempt Image Data}
    (h : c.attempts = [att]) {a : ℕ} {stage : Stage Image Data}
    (hstage : c.stageOf a = some stage) : a = 0 ∧ att.stage = stage := by
  obtain ⟨att', hatt, rfl⟩ := (c.stageOf_eq_some_iff a).mp hstage
  rw [h, List.getElem?_singleton] at hatt
  split at hatt
  next ha => exact ⟨ha, congrArg Attempt.stage (Option.some.inj hatt)⟩
  next => cases hatt

/-- A photo can be uploaded if it is there and is resized and encoded. -/
theorem isSome_uploadDataOf (services : Services Image Data) (location : Location Image) :
    (uploadDataOf services location).isSome =
      ((location.firstPhoto.bind services.resizedTo1MB).bind
        services.pngRepresentation).isSome := by
  simp [uploadDataOf, Location.getImage, Option.bind_assoc]

section Run

variable {itinerary : CurrentItinerary Image} {s s' : State Image Data} {o : Account}
  {att : Attempt Image Data}

/-- The call of `savePhoto` for index `k`, all before it done, leaves the account at the stage it
moves the attempt to. -/
theorem turn_at {k : ℕ} {c c' : SavingController Image Data}
    (hcase : SavePhotoCase services s.itinerary s.currentUser 0 k c c')
    (hatt : c.attempts = [att]) (he : o.encoded = Account.successes k)
    (hu : o.uploaded = Account.successes k) (hl : o.located = Account.successes k)
    (hw : o.written = []) :
    ∃ att', c'.attempts = [att'] ∧ (o.turn services s k).At att'.stage ∧
      (o.turn services s k).count = att'.lastCount ∧
      (o.turn services s k).user = att'.lastUser := by
  have hlen : s.itinerary.locations.length = s.itinerary.places.length := by
    simp [CurrentItinerary.places]
  cases hcase with
  | signedOut hk huser =>
    have hnone : s.itinerary.locations[k]? = none := by
      rw [List.getElem?_eq_none_iff]
      omega
    exact ⟨_, attempts_update_zero hatt _, .ended (by simp [Account.turn, hnone, he]) hu hl hw,
      hlen, rfl⟩
  | registers uid hk huser =>
    have hnone : s.itinerary.locations[k]? = none := by
      rw [List.getElem?_eq_none_iff]
      omega
    exact ⟨_, attempts_update_zero hatt _,
      .updateChildValues (by simp [Account.turn, hnone, he]) hu hl hw, hlen, rfl⟩
  | noPhoto hk hnone =>
    -- the location is there, and its photo is not
    have hget := List.getElem?_eq_getElem (hlen ▸ hk)
    rw [hget, Option.bind_some] at hnone
    have hphoto := isSome_uploadDataOf services s.itinerary.locations[k]
    rw [hnone] at hphoto
    exact ⟨_, attempts_update_zero hatt _,
      .noPhoto (by simp only [Account.turn, hget, Option.map_some, ← hphoto, he]; rfl) hu hl hw,
      hlen, rfl⟩
  | uploads ref hk ha hi hfrom hsome =>
    have hget := List.getElem?_eq_getElem (hlen ▸ hk)
    rw [hget, Option.bind_some, isSome_uploadDataOf] at hsome
    exact ⟨_, attempts_update_zero hatt _,
      .putData (by simp [Account.turn, hget, hsome, he, Account.successes_succ]) hu hl hw,
      hlen, rfl⟩

/-- An event that no attempt waits for is not written down. -/
theorem record_of_ignores {e : ControllerEvent} (he : Ignores s.controller e) :
    o.record services s (.controller e) = o := by
  cases e with
  | yes => exact he.elim
  | putData a metadata error =>
    simp only [Account.record]
    split
    next k n ref hstage => exact absurd hstage (he k n ref)
    next => rfl
  | downloadURL a url =>
    simp only [Account.record]
    split
    next k n ref hstage => exact absurd hstage (he k n ref)
    next => rfl
  | updateChildValues a err =>
    simp only [Account.record]
    split
    next k hstage => exact absurd hstage (he k)
    next => rfl

/-- An event that changes neither the count nor the user keeps the account in step, if the new
stage has it. -/
theorem Account.Matches.update (h : o.Matches itinerary s att) {o' : Account}
    {f : Attempt Image Data → Attempt Image Data} (hout : o'.At (f att).stage)
    (hkept : (o'.count, o'.user, o'.added, (f att).lastCount, (f att).lastUser) =
      (o.count, o.user, o.added, att.lastCount, att.lastUser)) :
    o'.Matches itinerary { s with controller := s.controller.update 0 f } (f att) := by
  simp only [Prod.mk.injEq] at hkept
  obtain ⟨hcount, huser, hadded, hlastCount, hlastUser⟩ := hkept
  refine ⟨attempts_update_zero h.attempts f, hout, ?_, ?_, ?_⟩
  · rw [hcount, hlastCount, h.count]
  · rw [huser, hlastUser, h.user]
  · rw [hadded]
    exact h.places

/-- After a callback of the chain the account is that of the stage it moves the attempt to. -/
theorem matches_controllerCase {e : ControllerEvent} {c' : SavingController Image Data}
    (h : o.Matches itinerary s att) (he : e ≠ .yes)
    (hcase : ControllerCase services s.itinerary s.currentUser s.controller e c') :
    ∃ att', (o.record services s (.controller e)).Matches itinerary
      { s with controller := c' } att' := by
  have hout := h.outcomes
  cases hcase with
  | ignored hignores => exact ⟨att, record_of_ignores hignores ▸ h⟩
  | yes => exact absurd rfl he
  | @uploadFailed _ k n ref metadata error hstage hfail =>
    obtain ⟨rfl, hst⟩ := stage_of_stageOf h.attempts hstage
    have hresult : (metadata && !error) = false := by
      cases error with
      | true => exact Bool.and_false _
      | false => simpa using hfail
    simp only [Account.record, hstage, hresult]
    rw [hst] at hout
    cases hout with
    | putData he hu hl hw => exact ⟨_, h.update (.notUploaded he (by rw [hu]) hl hw) rfl⟩
  | uploaded hstage =>
    obtain ⟨rfl, hst⟩ := stage_of_stageOf h.attempts hstage
    simp only [Account.record, hstage]
    rw [hst] at hout
    cases hout with
    | putData he hu hl hw =>
      exact ⟨_, h.update (.downloadURL he (by simp [hu, Account.successes_succ]) hl hw) rfl⟩
  | noURL hstage =>
    obtain ⟨rfl, hst⟩ := stage_of_stageOf h.attempts hstage
    simp only [Account.record, hstage]
    rw [hst] at hout
    cases hout with
    | downloadURL he hu hl hw => exact ⟨_, h.update (.noURL he hu (by simp [hl]) hw) rfl⟩
  | @recorded a k n ref _ hstage hcase =>
    obtain ⟨rfl, hst⟩ := stage_of_stageOf h.attempts hstage
    simp only [Account.record, hstage]
    rw [hst] at hout
    cases hout with
    | downloadURL he hu hl hw =>
      -- index `k` has succeeded, and the turn is that of the next one
      obtain ⟨att', hatt', hout', hcount', huser'⟩ := turn_at (s := s)
        (o := { o with located := o.located ++ [(k, true)] }) hcase
        (attempts_update_zero h.attempts _) he hu (by simp [hl, Account.successes_succ]) hw
      exact ⟨att', hatt', hout', hcount', huser', h.places⟩
  | rejected hstage =>
    obtain ⟨rfl, hst⟩ := stage_of_stageOf h.attempts hstage
    simp only [Account.record, hstage]
    rw [hst] at hout
    cases hout with
    | updateChildValues he hu hl hw => exact ⟨_, h.update (.rejected he hu hl (by simp [hw])) rfl⟩
  | finished hstage =>
    obtain ⟨rfl, hst⟩ := stage_of_stageOf h.attempts hstage
    simp only [Account.record, hstage]
    rw [hst] at hout
    cases hout with
    | updateChildValues he hu hl hw => exact ⟨_, h.update (.finished he hu hl (by simp [hw])) rfl⟩

/-- Every event but "Yes" keeps the account in step with the chain. -/
theorem matches_step (hinv : Inv services s) (h : o.Matches itinerary s att) {e : Event Image}
    (he : e.startsAttempt = false) (hs' : step services s e = some s') :
    ∃ att', (o.record services s e).Matches itinerary s' att' := by
  cases e with
  | controller e =>
    obtain ⟨c', hc', rfl⟩ := Option.map_eq_some_iff.mp hs'
    exact matches_controllerCase h (by rintro rfl; cases he) (controllerCase_of_step hinv.1 hc')
  | addLocation place =>
    obtain rfl := Option.some.inj hs'
    refine ⟨att, h.attempts, h.outcomes.added _, h.count, h.user, ?_⟩
    rw [CurrentItinerary.places_addLocation, h.places]
    exact List.append_assoc _ _ _
  | addPhotoToLocation index image =>
    obtain rfl := Option.some.inj hs'
    refine ⟨att, h.attempts, h.outcomes, h.count, h.user, ?_⟩
    rw [CurrentItinerary.places_addPhotoToLocation]
    exact h.places
  | authStateChanged user =>
    obtain rfl := Option.some.inj hs'
    exact ⟨att, h.attempts, h.outcomes, h.count, h.user, h.places⟩

/-- "Yes" on a fresh controller starts the chain and its account. -/
theorem matches_yes {user : Option String}
    (hs' : step services (State.fresh itinerary user) (.controller .yes) = some s') :
    ∃ att', (Account.start.record services (State.fresh itinerary user)
      (.controller .yes)).Matches itinerary s' att' := by
  obtain ⟨c', hc', rfl⟩ := Option.map_eq_some_iff.mp hs'
  have hcase := controllerCase_of_step (inv_fresh services itinerary user).1 hc'
  cases hcase with
  | ignored he => exact he.elim
  | yes hcase =>
    obtain ⟨att', hatt', hout', hcount', huser'⟩ := turn_at (o := Account.start) hcase rfl rfl rfl
      rfl rfl
    exact ⟨att', hatt', hout', hcount', huser', (List.append_nil _).symm⟩

/-- With one attempt, everything recorded and registered is its own. -/
theorem own_of_inv (hinv : Inv services s) (hatt : s.controller.attempts = [att]) :
    s.controller.photoIDs.map (·.index) = List.range att.stage.index ∧
      s.controller.registered.length = att.stage.registrations := by
  have hattempt := hinv.1.attempts 0 att (by simp [hatt])
  have hphotos : s.controller.photoIDs.filter (·.attempt = 0) = s.controller.photoIDs := by
    rw [List.filter_eq_self]
    intro ref href
    simpa [hatt] using (hinv.1.photoIDs ref href).1
  have hcourses : s.controller.registered.filter (·.attempt = 0) = s.controller.registered := by
    rw [List.filter_eq_self]
    intro r hr
    simpa [hatt] using (hinv.1.registered r hr).1
  exact ⟨hphotos ▸ hattempt.own, hcourses ▸ hattempt.registrations⟩

/-- What the stage of the only attempt says about the count and the user of its last turn. -/
theorem count_of_inv (hinv : Inv services s) (h : o.Matches itinerary s att) :
    att.stage.index ≤ o.count ∧
      (att.stage.registrations = 1 ↔ att.stage.index = o.count ∧ o.user ≠ none) ∧
      ((∃ k, att.stage = .ended k) → att.stage.index = o.count ∧ o.user = none) := by
  have hstage := (hinv.1.attempts 0 att (by simp [h.attempts])).stage
  rw [h.count, h.user]
  unfold Attempt.StageInv at hstage
  cases hk : att.stage with
  | saving k => exact absurd hk (hinv.2 att (by simp [h.attempts]) k)
  | putData k n ref | downloadURL k n ref =>
    rw [hk] at hstage
    obtain ⟨hlt, -, hlast, -⟩ := hstage
    simp only [Stage.index, Stage.registrations, hlast]
    exact ⟨hlt.le, iff_of_false Nat.zero_ne_one fun heq => hlt.ne heq.1, by simp⟩
  | failed k =>
    rw [hk] at hstage
    exact ⟨Nat.le_of_lt hstage, iff_of_false Nat.zero_ne_one fun heq => Nat.ne_of_lt hstage heq.1,
      by simp⟩
  | ended k =>
    rw [hk] at hstage
    exact ⟨hstage.1.ge, iff_of_false Nat.zero_ne_one fun heq => heq.2 hstage.2,
      fun _ => ⟨hstage.1.symm, hstage.2⟩⟩
  | updateChildValues k | rejected k | finished k =>
    rw [hk] at hstage
    exact ⟨hstage.1.ge, iff_of_true rfl ⟨hstage.1.symm, hstage.2⟩, by simp⟩

/-- A chain whose account matches does what the outcomes ask for. -/
theorem chainSpec_of_matches (hinv : Inv services s) (h : o.Matches itinerary s att) :
    ChainSpec services itinerary s o att := by
  have hattempt := hinv.1.attempts 0 att (by simp [h.attempts])
  obtain ⟨hphotos, hregistered⟩ := own_of_inv hinv h.attempts
  obtain ⟨hle, hregisters, hended⟩ := count_of_inv hinv h
  have hsucceeded := h.outcomes.succeeded_iff
  have hall : (∀ i < o.count, o.Succeeded i) ↔ att.stage.index = o.count := by
    simp only [hsucceeded]
    exact ⟨fun hall => hle.antisymm (Nat.le_of_not_lt fun hlt => Nat.lt_irrefl _ (hall _ hlt)),
      fun heq i hi => heq ▸ hi⟩
  refine ⟨h.attempts, h.places, by rw [hattempt.processed, List.length_range],
    by rw [hattempt.processed, h.outcomes.map_fst_encoded], fun k hk hbefore => ?_, ?_, ?_, ?_, ?_,
    fun ref href => (hinv.1.photoIDs ref href).2, ⟨_, hphotos, hsucceeded⟩, fun k hstopped => ?_⟩
  · -- an index at its turn is the stage's index, or has been left behind
    simp only [hsucceeded] at hbefore ⊢
    rcases Nat.lt_or_ge k att.stage.index with hlt | hge
    · exact Or.inl hlt
    · obtain rfl : k = att.stage.index :=
        hge.antisymm' (Nat.le_of_not_lt fun hlt => Nat.lt_irrefl _ (hbefore _ hlt))
      rcases h.outcomes.goesOn with hfailed | hwaits | hend | hregistration
      · exact Or.inr (Or.inl hfailed)
      · exact Or.inr (Or.inr hwaits)
      · exact absurd (hended hend).1 hk.ne
      · exact absurd (hregisters.mp hregistration).1 hk.ne
  · rw [hregistered]
    cases att.stage <;> simp [Stage.registrations]
  · rw [hregistered, hregisters, hall]
  · rw [hattempt.completions]
    cases att.stage <;> simp [Stage.completions]
  · rw [hattempt.completions, h.outcomes.completions_iff]
  · obtain ⟨hbefore, hstop⟩ := hstopped
    simp only [hsucceeded] at hbefore hstop
    -- nothing from `k` on has succeeded
    have hindex : att.stage.index = k := by
      rcases hstop with ⟨-, hnot⟩ | ⟨rfl, -⟩
      · exact (Nat.le_of_not_lt hnot).antisymm
          (Nat.le_of_not_lt fun hlt => Nat.lt_irrefl _ (hbefore _ hlt))
      · exact hle.antisymm (Nat.le_of_not_lt fun hlt => Nat.lt_irrefl _ (hbefore _ hlt))
    have hnone : att.stage.registrations ≠ 1 := by
      rw [Ne, hregisters, hindex]
      rintro ⟨rfl, huser⟩
      rcases hstop with ⟨hlt, -⟩ | ⟨-, hno⟩
      · exact Nat.lt_irrefl _ hlt
      · exact huser hno
    refine ⟨by rw [hphotos, hindex], List.length_eq_zero_iff.mp ?_⟩
    rw [hregistered]
    cases hk : att.stage <;> simp_all [Stage.registrations]

end Run

/-! ## A single call of `saveItinerary` -/

/-- One `saveItinerary` call on a fresh controller, with any outcomes of its callbacks and any
locations and photos added in between: `getLocation` is never out of range, and in every state the
chain has done what `ChainSpec` makes of the outcomes. -/
theorem saveItinerary_chain (services : Services Image Data) (itinerary : CurrentItinerary Image)
    (user : Option String) (es : List (Event Image)) (hes : ∀ e ∈ es, e.startsAttempt = false) :
    ∃ s o att, (step services).exec (State.fresh itinerary user) (.controller .yes :: es) = some s ∧
      ((step services).recording (Account.record services)).exec
        (State.fresh itinerary user, .start) (.controller .yes :: es) = some (s, o) ∧
      ChainSpec services itinerary s o att := by
  -- "Yes" starts the chain; the rest of the run keeps the account in step with it
  obtain ⟨s₁, hs₁, hspec₁⟩ := step_spec (inv_fresh services itinerary user) (.controller .yes)
  obtain ⟨⟨s, o⟩, hso, hinv, att, hmatches⟩ : ∃ p,
      ((step services).recording (Account.record services)).exec
        (s₁, Account.start.record services (State.fresh itinerary user) (.controller .yes)) es =
          some p ∧ Inv services p.1 ∧ ∃ att, p.2.Matches itinerary p.1 att := by
    refine PartialStep.exec_total es (fun e he p h => ?_) ⟨hspec₁.inv, matches_yes hs₁⟩
    obtain ⟨hinv, att, hmatches⟩ := h
    obtain ⟨s', hs', hspec⟩ := step_spec hinv e
    exact ⟨_, by rw [PartialStep.recording, hs', Option.map_some], hspec.inv,
      matches_step hinv hmatches (hes e he) hs'⟩
  have hrecording : ((step services).recording (Account.record services)).exec
      (State.fresh itinerary user, .start) (.controller .yes :: es) = some (s, o) := by
    rw [PartialStep.exec_cons, PartialStep.recording, hs₁, Option.map_some, Option.bind_some]
    exact hso
  exact ⟨s, o, att, PartialStep.exec_recording _ hrecording, hrecording,
    chainSpec_of_matches hinv hmatches⟩

/-- Images that always resize and encode, and a URL for each object. -/
def plainServices : Services Unit Unit :=
  { resizedTo1MB := some, pngRepresentation := some,
    absoluteString := fun name => s!"{name.1}/{name.2}.png" }

/-- A place with the given identifier, on the diagonal. -/
def placeAt (n : ℕ) : GMSPlace :=
  { name := s!"place {n}", placeID := s!"id {n}", formattedAddress := none,
    coordinate := ⟨n, n⟩ }

/-- Two locations that both have their photo. -/
def twoStops : CurrentItinerary Unit :=
  { (CurrentItinerary.init : CurrentItinerary Unit) with
    locations := [⟨placeAt 0, some ()⟩, ⟨placeAt 1, some ()⟩] }

/-- `saveItinerary_chain` on two locations, with a third one added before the first URL arrives
and a missing photo at the end. -/
theorem saveItinerary_chain_twoStops :
    ∃ s o att, (step plainServices).exec (State.fresh twoStops (some "uid"))
        [.controller .yes, .controller (.putData 0 true false), .addLocation (placeAt 2),
          .controller (.downloadURL 0 true), .controller (.putData 0 true false),
          .controller (.downloadURL 0 true)] = some s ∧
      ((step plainServices).recording (Account.record plainServices)).exec
        (State.fresh twoStops (some "uid"), .start)
        [.controller .yes, .controller (.putData 0 true false), .addLocation (placeAt 2),
          .controller (.downloadURL 0 true), .controller (.putData 0 true false),
          .controller (.downloadURL 0 true)] = some (s, o) ∧
      ChainSpec plainServices twoStops s o att :=
  saveItinerary_chain plainServices twoStops (some "uid") _ (by decide)

end DateCourse.Save
