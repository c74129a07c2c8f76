import DateCourse.Feed.Thumbnail
import DateCourse.Machine.Run

/-!
# The reuse of one thumbnail

A `CustomImageView` is reused for one URL string after another. The requests of its earlier calls
stay in flight, complete or fail in any order, and their blocks run on the main queue between the
calls. The view compares the URL string of a block with that of its last call, so what it shows is
always an image fetched from there.

## Main definitions

* `ThumbnailReuse.step`: the view with its requests and blocks, as a machine;
* `ThumbnailReuse.Fetched`: some request to the URL of a string has delivered the image;
* `ThumbnailReuse.Traps`: the events that find nothing in a forced unwrap;
* `ThumbnailReuse.NeverStale`: the image, the cache and the requests are what they should be.

## Main results

* `ThumbnailReuse.inv_step`: every event keeps the invariant;
* `along_neverStale`: no run ever shows a stale image;
* `step_of_configure`: a cell of the feed uses its view only in this way.
-/

namespace DateCourse.ThumbnailReuse

variable {Image Data URL : Type}

/-- A request in flight. `call` is the number of the call that made it, from 1. -/
structure Request (URL : Type) where
  task : DataTask URL
  call : ℕ

/-- A block on the main queue, with what its closure has captured. -/
structure Block (Data : Type) where
  urlString : String
  data : Option Data
  call : ℕ
  /-- *Ghost*: the body that the answer to the request has delivered. -/
  body : Option Data

/-- A view with its requests and its blocks. -/
structure State (Image Data URL : Type) where
  view : CustomImageView Image
  requests : List (Request URL)
  /-- The blocks on the main queue, the next one first. -/
  blocks : List (Block Data)
  /-- *Ghost*: the URL strings of all calls so far, the last one first. -/
  requested : List String
  /-- *Ghost*: the bodies that answers have delivered, each with the URL of its request. -/
  delivered : List (URL × Data)
  /-- *Ghost*: the last call found its image in the cache. -/
  cachedAtCall : Bool
  /-- *Ghost*: the request of the last call has been answered. -/
  ownAnswered : Bool
  /-- *Ghost*: the answer has delivered a decodable image. -/
  ownDelivered : Bool

/-- The view of a new cell. -/
def State.start : State Image Data URL :=
  { view := { imageUrlString := none, imageCache := fun _ => none, image := none },
    requests := [], blocks := [], requested := [], delivered := [], cachedAtCall := false,
    ownAnswered := false, ownDelivered := false }

/-- The events of a run. -/
inductive Event (Data : Type)
  | loadImageUsingUrlString (urlString : String)
  /-- The completion handler of request `j` runs. -/
  | completionHandler (j : ℕ) (result : DataTaskResult Data)
  /-- The next block of the main queue runs. -/
  | mainQueue
  /-- The cache drops an entry. -/
  | evict (urlString : String)

variable (loading : ImageLoading Image Data URL)

/-- The state after a call that has left the view `view` and made the request `task`. -/
def State.load (s : State Image Data URL) (urlString : String) (view : CustomImageView Image)
    (task : Option (DataTask URL)) : State Image Data URL :=
  { s with
    view,
    requests := s.requests ++ (task.map fun task => ⟨task, s.requested.length + 1⟩).toList,
    requested := urlString :: s.requested,
    cachedAtCall := (s.view.imageCache urlString).isSome,
    ownAnswered := false,
    ownDelivered := false }

/-- The state when the answer to request `j`, which is `r`, arrives. -/
def State.answer (s : State Image Data URL) (j : ℕ) (r : Request URL)
    (result : DataTaskResult Data) : State Image Data URL :=
  { s with
    requests := s.requests.eraseIdx j,
    delivered := (result.body.map (r.task.url, ·)).toList ++ s.delivered,
    ownAnswered := s.ownAnswered || r.call = s.requested.length,
    ownDelivered := s.ownDelivered ||
      (r.call = s.requested.length && (result.body.bind loading.image).isSome) }

/-- One event of the run; `none` is a trap. -/
def step : PartialStep (State Image Data URL) (Event Data)
  | s, .loadImageUsingUrlString urlString =>
    (s.view.loadImageUsingUrlString loading urlString).map fun p => s.load urlString p.1 p.2
  | s, .completionHandler j result =>
    match s.requests[j]? with
    | none => some s
    | some r =>
      let s := s.answer loading j r result
      match CustomImageView.completionHandler result with
      | none => some s
      | some data =>
        some { s with blocks := s.blocks ++ [⟨r.task.urlString, data, r.call, result.body⟩] }
  | s, .mainQueue =>
    match s.blocks with
    | [] => some s
    | block :: blocks =>
      (s.view.mainQueueBlock loading block.urlString block.data).map
        fun view => { s with view, blocks }
  | s, .evict urlString =>
    some { s with view :=
      { s.view with imageCache := Function.update s.view.imageCache urlString none } }

/-- A request to the URL of the string has delivered the image. -/
def Fetched (s : State Image Data URL) (urlString : String) (image : Image) : Prop :=
  ∃ url data, loading.url urlString = some url ∧ (url, data) ∈ s.delivered ∧
    loading.image data = some image

/-- The event finds nothing in a forced unwrap: a string without a cached image that is no URL, or
a body that is missing or not an image. -/
def Traps (s : State Image Data URL) : Event Data → Prop
  | .loadImageUsingUrlString urlString =>
    s.view.imageCache urlString = none ∧ loading.url urlString = none
  | .mainQueue => ∃ block, s.blocks.head? = some block ∧ block.body.bind loading.image = none
  | .completionHandler _ _ | .evict _ => False

/-- The view as it should be. -/
structure NeverStale (s : State Image Data URL) : Prop where
  /-- The image is nil or has been fetched from the most recently requested URL string. -/
  image : ∀ image, s.view.image = some image →
    ∃ urlString, s.requested.head? = some urlString ∧ Fetched loading s urlString image
  /-- A cached image has been fetched from the URL string that is its key. -/
  imageCache : ∀ urlString image, s.view.imageCache urlString = some image →
    Fetched loading s urlString image
  /-- Once nothing is pending, an image of the last requested URL string is shown if one was cached
  at the call or its own request has delivered one. -/
  shown : s.requests = [] → s.blocks = [] → s.cachedAtCall ∨ s.ownDelivered →
    ∃ urlString image, s.requested.head? = some urlString ∧ s.view.image = some image ∧
      Fetched loading s urlString image
  /-- The last call has found a cached image, or its request is answered or in flight. -/
  requested : ∀ urlString, s.requested.head? = some urlString →
    s.cachedAtCall ∨ s.ownAnswered ∨ ∃ r ∈ s.requests,
      r.call = s.requested.length ∧ loading.url urlString = some r.task.url
  /-- The next event traps only in a forced unwrap. -/
  traps : ∀ e, step loading s e = none ↔ Traps loading s e

/-- What holds in every state. -/
structure Inv (s : State Image Data URL) : Prop where
  imageUrlString : s.view.imageUrlString = s.requested.head?
  image : ∀ image, s.view.image = some image →
    ∃ urlString, s.requested.head? = some urlString ∧ Fetched loading s urlString image
  imageCache : ∀ urlString image, s.view.imageCache urlString = some image →
    Fetched loading s urlString image
  /-- A request goes to the URL of its string, and that of the last call is for the last string. -/
  requests : ∀ r ∈ s.requests, r.call ≤ s.requested.length ∧
    (r.call = s.requested.length → s.requested.head? = some r.task.urlString) ∧
    loading.url r.task.urlString = some r.task.url
  /-- A block has the body that has been delivered from the URL of its string. -/
  blocks : ∀ block ∈ s.blocks, block.call ≤ s.requested.length ∧
    (block.call = s.requested.length → s.requested.head? = some block.urlString) ∧
    block.data = block.body ∧
    ∀ data, block.body = some data →
      ∃ url, loading.url block.urlString = some url ∧ (url, data) ∈ s.delivered
  cached : s.cachedAtCall → s.view.image.isSome
  /-- The request of the last call is in flight until it is answered. -/
  requested : s.requested ≠ [] → s.cachedAtCall ∨ s.ownAnswered ∨
    ∃ r ∈ s.requests, r.call = s.requested.length
  /-- A decodable image of the last call is shown, or on its way. -/
  own : s.ownDelivered → s.view.image.isSome ∨ ∃ block ∈ s.blocks,
    block.call = s.requested.length ∧ (block.body.bind loading.image).isSome

theorem inv_start : Inv loading (State.start : State Image Data URL) := by
  constructor <;> simp [State.start]

variable {loading} {s s' : State Image Data URL}

/-- What has been fetched stays fetched. -/
theorem Fetched.mono {urlString : String} {image : Image} (h : Fetched loading s urlString image)
    (hsub : s.delivered ⊆ s'.delivered) : Fetched loading s' urlString image := by
  obtain ⟨url, data, hurl, hdata, himage⟩ := h
  exact ⟨url, data, hurl, hsub hdata, himage⟩

/-- Only the two forced unwraps trap. -/
theorem Inv.step_eq_none_iff (h : Inv loading s) (e : Event Data) :
    step loading s e = none ↔ Traps loading s e := by
  cases e with
  | loadImageUsingUrlString urlString =>
    rw [step, Option.map_eq_none_iff]
    exact CustomImageView.loadImageUsingUrlString_eq_none_iff loading s.view urlString
  | completionHandler j result =>
    refine iff_of_false ?_ id
    simp only [step]
    split
    · simp
    · split <;> simp
  | mainQueue =>
    cases hblocks : s.blocks with
    | nil => simp [step, Traps, hblocks]
    | cons block blocks =>
      -- the block has been handed the body of its answer
      have hbody := (h.blocks block (hblocks ▸ List.mem_cons_self)).2.2.1
      have hiff := CustomImageView.mainQueueBlock_isSome_iff loading s.view block.urlString
        block.data
      simp only [step, Traps, hblocks, Option.map_eq_none_iff, List.head?_cons, Option.some.injEq,
        exists_eq_left']
      rw [← Option.not_isSome_iff_eq_none, hiff, hbody]
      cases block.body <;> simp
  | evict urlString => exact iff_of_false (by simp [step]) id

/-- The invariant says more than is asked for. -/
theorem Inv.neverStale (h : Inv loading s) : NeverStale loading s := by
  refine ⟨h.image, h.imageCache, fun _ hblocks hshown => ?_, fun urlString hhead => ?_,
    h.step_eq_none_iff⟩
  · have hsome : s.view.image.isSome := by
      rcases hshown with hcached | hown
      · exact h.cached hcached
      · rcases h.own hown with hsome | ⟨block, hblock, -⟩
        · exact hsome
        -- nothing is on its way any more
        · rw [hblocks] at hblock
          cases hblock
    obtain ⟨image, himage⟩ := Option.isSome_iff_exists.mp hsome
    obtain ⟨urlString, hhead, hfetched⟩ := h.image image himage
    exact ⟨urlString, image, hhead, himage, hfetched⟩
  · have hne : s.requested ≠ [] := by
      rintro hnil
      rw [hnil] at hhead
      cases hhead
    rcases h.requested hne with hcached | hanswered | ⟨r, hr, hcall⟩
    · exact Or.inl hcached
    · exact Or.inr (Or.inl hanswered)
    -- the request of the last call is for this string
    · obtain ⟨-, hlast, hurl⟩ := h.requests r hr
      obtain rfl := Option.some.inj (hhead.symm.trans (hlast hcall))
      exact Or.inr (Or.inr ⟨r, hr, hcall, hurl⟩)

section Step

/-- What a call does to the view, and the request that it makes. -/
theorem load_cases {view view' : CustomImageView Image} {urlString : String}
    {task : Option (DataTask URL)}
    (h : view.loadImageUsingUrlString loading urlString = some (view', task)) :
    view'.imageUrlString = some urlString ∧ view'.imageCache = view.imageCache ∧
      view'.image = view.imageCache urlString ∧
      (view.imageCache urlString = none → task.isSome) ∧
      ∀ t, task = some t → t.urlString = urlString ∧ loading.url urlString = some t.url := by
  cases hcached : view.imageCache urlString with
  | some image =>
    rw [CustomImageView.loadImageUsingUrlString_of_cached loading hcached, Option.some.injEq,
      Prod.mk.injEq] at h
    obtain ⟨rfl, rfl⟩ := h
    exact ⟨rfl, rfl, rfl, fun hnone => absurd hnone (by simp), fun t ht => by cases ht⟩
  | none =>
    cases hurl : loading.url urlString with
    | none =>
      simp only [CustomImageView.loadImageUsingUrlString, hcached, hurl] at h
      cases h
    | some url =>
      rw [CustomImageView.loadImageUsingUrlString_of_not_cached loading hcached hurl,
        Option.some.injEq, Prod.mk.injEq] at h
      obtain ⟨rfl, rfl⟩ := h
      exact ⟨rfl, rfl, rfl, fun _ => rfl, fun t ht => Option.some.inj ht ▸ ⟨rfl, rfl⟩⟩

/-- What a block does to the view, if it does not trap. -/
theorem mainQueueBlock_cases {view view' : CustomImageView Image} {urlString : String}
    {data : Option Data} (h : view.mainQueueBlock loading urlString data = some view') :
    ∃ d image, data = some d ∧ loading.image d = some image ∧
      view' = { view with
        image := if view.imageUrlString = some urlString then some image else view.image,
        imageCache := Function.update view.imageCache urlString image } := by
  cases data with
  | none => cases h
  | some d =>
    cases himage : loading.image d with
    | none =>
      simp only [CustomImageView.mainQueueBlock, himage] at h
      cases h
    | some image =>
      simp only [CustomImageView.mainQueueBlock, himage, Option.some.injEq] at h
      refine ⟨d, image, rfl, himage, ?_⟩
      rw [← h]
      split <;> rfl

/-- A call keeps the invariant. -/
theorem inv_load (h : Inv loading s) {urlString : String} {view : CustomImageView Image}
    {task : Option (DataTask URL)}
    (hload : s.view.loadImageUsingUrlString loading urlString = some (view, task)) :
    Inv loading (s.load urlString view task) := by
  obtain ⟨hurlString, hcache, himage, hrequest, htask⟩ := load_cases hload
  refine ⟨hurlString, fun image hsome => ?_, fun key image hsome => ?_, fun r hr => ?_,
    fun block hblock => ?_, fun hcached => ?_, fun _ => ?_, fun hown => by cases hown⟩
  · -- the image comes from the cache
    exact ⟨urlString, rfl, h.imageCache urlString image (himage.symm.trans hsome)⟩
  · exact h.imageCache key image ((congrFun hcache key).symm.trans hsome)
  · -- the requests of earlier calls have smaller numbers
    rcases List.mem_append.mp hr with hold | hnew
    · obtain ⟨hle, -, hurl⟩ := h.requests r hold
      refine ⟨Nat.le_succ_of_le hle, fun hcall => ?_, hurl⟩
      simp only [State.load, List.length_cons] at hcall
      omega
    · obtain ⟨t, ht, rfl⟩ := by simpa using hnew
      obtain ⟨heq, hurl⟩ := htask t ht
      exact ⟨le_rfl, fun _ => congrArg some heq.symm, heq ▸ hurl⟩
  · obtain ⟨hle, -, hbody⟩ := h.blocks block hblock
    refine ⟨Nat.le_succ_of_le hle, fun hcall => ?_, hbody⟩
    simp only [State.load, List.length_cons] at hcall
    omega
  · show view.image.isSome
    rw [himage]
    exact hcached
  · -- without a cached image the call has made a request
    cases hcached : s.view.imageCache urlString with
    | some image => exact Or.inl (by simp [State.load, hcached])
    | none =>
      obtain ⟨t, rfl⟩ := Option.isSome_iff_exists.mp (hrequest hcached)
      exact Or.inr (Or.inr ⟨_, List.mem_append_right _ (List.mem_singleton_self _), rfl⟩)

/-- The arrival of an answer keeps the invariant but for what its block is to do: a decodable image
of the last call is shown, on its way, or the one that has just arrived. -/
theorem inv_answer (h : Inv loading s) {j : ℕ} {r : Request URL} (hr : s.requests[j]? = some r)
    (result : DataTaskResult Data) {blocks : List (Block Data)}
    (hblocks : blocks = [] ∧ result.body = none ∨
      blocks = [⟨r.task.urlString, result.body, r.call, result.body⟩]) :
    Inv loading { s.answer loading j r result with blocks := s.blocks ++ blocks } := by
  obtain ⟨hcall, hlast, hurl⟩ := h.requests r (List.mem_of_getElem? hr)
  have hsub : s.delivered ⊆ (s.answer loading j r result).delivered :=
    List.subset_append_right _ _
  refine ⟨h.imageUrlString, fun image hsome => ?_, fun key image hsome => ?_,
    fun r' hr' => h.requests r' (List.mem_of_mem_eraseIdx hr'), fun block hblock => ?_, h.cached,
    fun hne => ?_, fun hown => ?_⟩
  · obtain ⟨urlString, hhead, hfetched⟩ := h.image image hsome
    exact ⟨urlString, hhead, hfetched.mono hsub⟩
  · exact (h.imageCache key image hsome).mono hsub
  · rcases List.mem_append.mp hblock with hold | hnew
    · obtain ⟨hle, hhead, heq, hdata⟩ := h.blocks block hold
      refine ⟨hle, hhead, heq, fun d hd => ?_⟩
      obtain ⟨url, hurl, hdelivered⟩ := hdata d hd
      exact ⟨url, hurl, hsub hdelivered⟩
    · rcases hblocks with ⟨rfl, -⟩ | rfl
      · cases hnew
      · obtain rfl := List.mem_singleton.mp hnew
        refine ⟨hcall, hlast, rfl, fun d hd => ⟨_, hurl, List.mem_append_left _ ?_⟩⟩
        rw [show result.body = some d from hd]
        exact List.mem_singleton_self _
  · -- the request of the last call is still in flight unless it is the one answered
    rcases h.requested hne with hcached | hanswered | ⟨r', hr', hcall'⟩
    · exact Or.inl hcached
    · exact Or.inr (Or.inl (by simp [State.answer, hanswered]))
    · by_cases hown : r.call = s.requested.length
      · exact Or.inr (Or.inl (by simp [State.answer, hown]))
      · refine Or.inr (Or.inr ⟨r', ?_, hcall'⟩)
        obtain ⟨i, hi⟩ := List.mem_iff_getElem?.mp hr'
        have hij : i ≠ j := by
          rintro rfl
          obtain rfl := Option.some.inj (hi.symm.trans hr)
          exact hown hcall'
        exact List.mem_eraseIdx_iff_getElem?.mpr ⟨i, hij, hi⟩
  · -- either the request of the last call had delivered before, or this is it
    rcases (Bool.or_eq_true _ _).mp hown with hbefore | hnow
    · rcases h.own hbefore with hsome | ⟨block, hblock, hown⟩
      · exact Or.inl hsome
      · exact Or.inr ⟨block, List.mem_append_left _ hblock, hown⟩
    · rw [Bool.and_eq_true, decide_eq_true_eq] at hnow
      rcases hblocks with ⟨-, hnone⟩ | rfl
      · rw [hnone] at hnow
        exact absurd hnow.2 (by simp)
      · exact Or.inr ⟨_, List.mem_append_right _ (List.mem_singleton_self _), hnow⟩

/-- A block that finds an image keeps the invariant. -/
theorem inv_mainQueueBlock (h : Inv loading s) {block : Block Data} {blocks : List (Block Data)}
    (hblocks : s.blocks = block :: blocks) {d : Data} {image : Image} (hd : block.data = some d)
    (himage : loading.image d = some image) :
    Inv loading { s with
      view := { s.view with
        image := if s.view.imageUrlString = some block.urlString then some image else s.view.image,
        imageCache := Function.update s.view.imageCache block.urlString image },
      blocks } := by
  have hmem : block ∈ s.blocks := hblocks ▸ List.mem_cons_self
  obtain ⟨-, -, hbody, hdelivered⟩ := h.blocks block hmem
  obtain ⟨url, hurl, hdelivered⟩ := hdelivered d (hbody ▸ hd)
  have hfetched : Fetched loading s block.urlString image := ⟨url, d, hurl, hdelivered, himage⟩
  refine ⟨h.imageUrlString, fun image' hsome => ?_, fun key image' hsome => ?_, h.requests,
    fun block' hblock' => h.blocks block' (hblocks ▸ List.mem_cons_of_mem _ hblock'),
    fun hcached => ?_, h.requested, fun hown => ?_⟩
  · -- the image changes only for the URL string of the last call
    by_cases hcurrent : s.view.imageUrlString = some block.urlString
    · simp only [if_pos hcurrent, Option.some.injEq] at hsome
      subst hsome
      exact ⟨block.urlString, h.imageUrlString.symm.trans hcurrent, hfetched⟩
    · simp only [if_neg hcurrent] at hsome
      exact h.image image' hsome
  · by_cases hkey : key = block.urlString
    · subst hkey
      simp only [Function.update_self, Option.some.injEq] at hsome
      exact hsome ▸ hfetched
    · simp only [Function.update_of_ne hkey] at hsome
      exact h.imageCache key image' hsome
  · show (if _ then some image else s.view.image).isSome
    split
    · rfl
    · exact h.cached hcached
  · -- if this was the block of the last call, its image is shown now
    by_cases hcurrent : s.view.imageUrlString = some block.urlString
    · exact Or.inl (by simp [hcurrent])
    · rcases h.own hown with hsome | ⟨block', hblock', hcall, hdecodable⟩
      · exact Or.inl (by simpa [hcurrent] using hsome)
      · rw [hblocks] at hblock'
        rcases List.mem_cons.mp hblock' with rfl | hrest
        · have hhead := (h.blocks block' hmem).2.1 hcall
          exact absurd (h.imageUrlString.trans hhead) hcurrent
        · exact Or.inr ⟨block', hrest, hcall, hdecodable⟩

/-- An eviction keeps the invariant. -/
theorem inv_evict (h : Inv loading s) (urlString : String) :
    Inv loading { s with view :=
      { s.view with imageCache := Function.update s.view.imageCache urlString none } } := by
  refine ⟨h.imageUrlString, h.image, fun key image hsome => ?_, h.requests, h.blocks, h.cached,
    h.requested, h.own⟩
  by_cases hkey : key = urlString
  · subst hkey
    simp only [Function.update_self, reduceCtorEq] at hsome
  · simp only [Function.update_of_ne hkey] at hsome
    exact h.imageCache key image hsome

/-- Every event keeps the invariant. -/
theorem inv_step (h : Inv loading s) {e : Event Data} (hs' : step loading s e = some s') :
    Inv loading s' := by
  cases e with
  | loadImageUsingUrlString urlString =>
    obtain ⟨p, hload, rfl⟩ := Option.map_eq_some_iff.mp hs'
    exact inv_load h hload
  | completionHandler j result =>
    simp only [step] at hs'
    split at hs'
    next => exact Option.some.inj hs' ▸ h
    next r hr =>
      split at hs'
      next hnone =>
        -- an error: no block, and no body
        have hbody := CustomImageView.body_of_completionHandler_none hnone
        have hanswer := inv_answer h hr result (Or.inl ⟨rfl, hbody⟩)
        rw [List.append_nil] at hanswer
        exact Option.some.inj hs' ▸ hanswer
      next data hdata =>
        obtain rfl := CustomImageView.body_of_completionHandler_some hdata
        exact Option.some.inj hs' ▸ inv_answer h hr result (Or.inr rfl)
  | mainQueue =>
    simp only [step] at hs'
    split at hs'
    next => exact Option.some.inj hs' ▸ h
    next block blocks hblocks =>
      obtain ⟨view, hview, rfl⟩ := Option.map_eq_some_iff.mp hs'
      obtain ⟨d, image, hd, himage, rfl⟩ := mainQueueBlock_cases hview
      exact inv_mainQueueBlock h hblocks hd himage
  | evict urlString => exact Option.some.inj hs' ▸ inv_evict h urlString

end Step

/-- For every run of one view, with any URL strings, any order of answers and any evictions: in
every state it reaches, the image is nil or fetched from the last URL string, the cache has only
images fetched from their keys, and once nothing is pending an image that was cached at the last
call or delivered by its request is shown. The request of the last call is made unless its image is
cached, and the run ends early only in a forced unwrap. -/
theorem along_neverStale (loading : ImageLoading Image Data URL) (es : List (Event Data)) :
    (step loading).Along (NeverStale loading) State.start es :=
  PartialStep.along_of_inv (fun _ => Inv.neverStale) (fun _ _ _ h hs' => inv_step h hs') es
    (inv_start loading)

/-- The answer to the first call comes after that to the second, and does not replace it. -/
example :
    ((step { url := some, image := some : ImageLoading String String String }).exec State.start
      [.loadImageUsingUrlString "a", .loadImageUsingUrlString "b",
        .completionHandler 1 ⟨some "image b", false⟩, .mainQueue,
        .completionHandler 0 ⟨some "image a", false⟩, .mainQueue]).map (·.view.image) =
      some (some "image b") := rfl

/-- A cell of the feed uses its view in no other way: configuring it is one call. -/
theorem step_of_configure {cell cell' : CourseCollectionViewCell Image} {courseData : CourseData}
    {task : Option (DataTask URL)} (hview : s.view = cell.imageView)
    (hconfigure : cell.configure loading courseData = some (cell', task)) :
    ∃ urlString, courseData.urls[0]? = some urlString ∧
      step loading s (.loadImageUsingUrlString urlString) =
        some (s.load urlString cell'.imageView task) := by
  obtain ⟨urlString, hfirst, hrest⟩ := Option.bind_eq_some_iff.mp hconfigure
  obtain ⟨p, hload, hcell⟩ := Option.bind_eq_some_iff.mp hrest
  obtain ⟨rfl, rfl⟩ := Prod.mk.inj (Option.some.inj hcell)
  exact ⟨urlString, hfirst, by rw [step, hview, hload, Option.map_some]⟩

end DateCourse.ThumbnailReuse
