import DateCourse.Editor.SaveCorrectness
import DateCourse.Editor.SaveProgress
import DateCourse.Editor.Session

/-!
# Progress HUDs

Two places of the app put a HUD on their view while they wait. `completeIntineraryTapped` dismisses
its HUD in the completion of the save; `logInButtonTapped` shows a HUD of its own and dismisses
`ProgressView.shared`, a different object that is never shown. A HUD that is shown stays until it
is dismissed.

## Main definitions

* `JGProgressHUD`, `LogInAttempt`, `logInButtonTapped` and `signInCompletion`;
* `Progress.step`: login attempts together with the sessions of the editor;
* `Progress.Quiescent` and `Progress.NoneShowing`;
* `Progress.Proceeds`: the condition on one step.

## Main results

* `Progress.noneShowing_iff_proceeds`: in a quiescent state no HUD is showing exactly when every
  step of the run met the condition.
-/

namespace DateCourse

variable {Image Data : Type} {services : Services Image Data}

/-- A HUD, as far as it is visible or not. -/
structure JGProgressHUD where
  isVisible : Bool
deriving DecidableEq

namespace JGProgressHUD

def init : JGProgressHUD := { isVisible := false }

/-- `show(in:)`. -/
def showIn (_hud : JGProgressHUD) : JGProgressHUD := { isVisible := true }

/-- `dismiss(animated:)`, which does nothing to a hidden HUD. -/
def dismiss (_hud : JGProgressHUD) : JGProgressHUD := { isVisible := false }

end JGProgressHUD

namespace Progress

open Save SavingController Session

/-- One call of `logInButtonTapped`. -/
structure LogInAttempt where
  /-- The local constant `progressView`. -/
  progressView : JGProgressHUD
  /-- `signIn` has not called back. -/
  pending : Bool
deriving DecidableEq

/-- The answer of `signIn`; for an unverified account also whether `signOut` throws. -/
inductive SignInResult
  | error
  | user (uid : String) (isEmailVerified signOutThrows : Bool)

/-- The user who is signed in after the callback of `signIn`. -/
def SignInResult.currentUser (before : Option String) : SignInResult → Option String
  | .error => before
  | .user uid isEmailVerified signOutThrows =>
    if isEmailVerified ∨ signOutThrows then some uid else none

/-- The login screen and the sessions of the editor. -/
structure State (Image Data : Type) where
  logIns : List LogInAttempt
  /-- `ProgressView.shared`, the field `progressView` of the login controller. -/
  shared : JGProgressHUD
  session : Session.State Image Data

/-- A new process. -/
def State.launch (user : Option String) : State Image Data :=
  { logIns := [], shared := .init, session := .launch user }

/-- The events of the sessions that saving is made of. -/
inductive SaveEvent (Image : Type)
  | shouldSelect
  | didPick (place : GMSPlace)
  | controller (k : ℕ) (e : ControllerEvent)
  | addPhotoToLocation (index : ℕ) (image : Image)
  | authStateChanged (user : Option String)

/-- The same event for the machine of the sessions. -/
def SaveEvent.toSession : SaveEvent Image → Session.Event Image
  | .shouldSelect => .shouldSelect
  | .didPick place => .didPick place
  | .controller k e => .controller k e
  | .addPhotoToLocation index image => .addPhotoToLocation index image
  | .authStateChanged user => .authStateChanged user

/-- The events of a run of login attempts and saves. -/
inductive Event (Image : Type)
  | logInButtonTapped
  /-- `signIn` of login attempt `i` calls back. -/
  | signIn (i : ℕ) (result : SignInResult)
  | save (e : SaveEvent Image)

/-- `logInButtonTapped`: a new HUD is shown and `signIn` is called. -/
def logInButtonTapped (s : State Image Data) : State Image Data :=
  { s with logIns := s.logIns ++ [{ progressView := JGProgressHUD.init.showIn, pending := true }] }

/-- The callback of `signIn`. `self.progressView` is the field, not the local HUD. -/
def signInCompletion (i : ℕ) (result : SignInResult) (s : State Image Data) : State Image Data :=
  match s.logIns[i]? with
  | some { progressView, pending := true } =>
    { logIns := s.logIns.set i { progressView, pending := false },
      shared := s.shared.dismiss,
      session := { s.session with currentUser := result.currentUser s.session.currentUser } }
  | _ => s

/-- One event of the run. -/
def step (services : Services Image Data) : PartialStep (State Image Data) (Event Image)
  | s, .logInButtonTapped => some (logInButtonTapped s)
  | s, .signIn i result => some (signInCompletion i result s)
  | s, .save e =>
    (Session.step services s.session e.toSession).map fun session => { s with session }

/-- All asynchronous calls have called back. -/
def Quiescent (s : State Image Data) : Prop :=
  (∀ logIn ∈ s.logIns, logIn.pending = false) ∧
    ∀ editor ∈ s.session.editors, ∀ att ∈ editor.saving.attempts, ¬ att.stage.IsPending

/-- No HUD of a login attempt or of a save is showing. -/
def NoneShowing (s : State Image Data) : Prop :=
  (∀ logIn ∈ s.logIns, logIn.progressView.isVisible = false) ∧
    ∀ editor ∈ s.session.editors, ∀ att ∈ editor.saving.attempts, att.progressView = false

/-- The condition on an event of the sessions: it breaks off no save. -/
def SaveProceeds (services : Services Image Data) (s : Session.State Image Data) :
    SaveEvent Image → Prop
  | .controller k e => ∀ editor, s.editors[k]? = some editor → (e = .yes → s.onScreen = some k) →
    Save.Proceeds services s.itinerary s.currentUser editor.saving e
  | .shouldSelect | .didPick _ | .addPhotoToLocation .. | .authStateChanged _ => True

/-- The condition on one step: it is no login, and it breaks off no save. -/
def Proceeds (services : Services Image Data) (s : State Image Data) : Event Image → Prop
  | .logInButtonTapped => False
  | .signIn .. => True
  | .save e => SaveProceeds services s.session e

/-! ## Broken saves -/

/-- No login was attempted and no save has broken off. -/
def Unbroken (s : State Image Data) : Prop :=
  s.logIns = [] ∧ ∀ (k : ℕ) editor, s.session.editors[k]? = some editor →
    Save.Unbroken editor.saving

/-- What holds in every state: a login HUD is never dismissed. -/
structure Inv (services : Services Image Data) (s : State Image Data) : Prop where
  session : Session.Inv services s.session
  visible : ∀ logIn ∈ s.logIns, logIn.progressView.isVisible = true

/-- The invariant holds after the launch. -/
theorem inv_launch (services : Services Image Data) (user : Option String) :
    Inv services (State.launch user) :=
  ⟨Session.inv_launch services user, by simp [State.launch]⟩

section Step

variable {s s' : State Image Data}

/-- A callback of `signIn` concerns one login attempt and the signed-in user. -/
theorem signInCompletion_cases (i : ℕ) (result : SignInResult) (s : State Image Data) :
    signInCompletion i result s = s ∨ ∃ logIn shared user, s.logIns[i]? = some logIn ∧
      signInCompletion i result s =
        { logIns := s.logIns.set i { logIn with pending := false }, shared,
          session := { s.session with currentUser := user } } := by
  unfold signInCompletion
  split
  next progressView hi => exact Or.inr ⟨_, _, _, hi, rfl⟩
  next => exact Or.inl rfl

/-- The callback of a sign-in keeps the invariant. -/
theorem inv_signInCompletion (h : Inv services s) (i : ℕ) (result : SignInResult) :
    Inv services (signInCompletion i result s) := by
  rcases signInCompletion_cases i result s with heq | ⟨logIn, shared, user, hi, heq⟩
  · rw [heq]
    exact h
  · rw [heq]
    refine ⟨⟨h.session.pathway, h.session.markers, h.session.saving, h.session.onScreen⟩, ?_⟩
    intro logIn' hlogIn'
    -- the callback does not touch the HUD of its login
    rcases List.mem_or_eq_of_mem_set hlogIn' with hold | rfl
    · exact h.visible logIn' hold
    · exact h.visible logIn (List.mem_of_getElem? hi)

/-- The sessions do not trap: undo is not among the events. -/
theorem session_step_total (h : Session.Inv services s.session) (e : SaveEvent Image) :
    ∃ session, Session.step services s.session e.toSession = some session := by
  cases e with
  | shouldSelect =>
    simp only [SaveEvent.toSession, Session.step]
    split <;> exact ⟨_, rfl⟩
  | didPick place =>
    simp only [SaveEvent.toSession, Session.step]
    split <;> exact ⟨_, rfl⟩
  | controller k e =>
    cases hk : s.session.editors[k]? with
    | none => exact ⟨s.session, by simp only [SaveEvent.toSession, Session.step, hk]⟩
    | some editor =>
      rcases step_controller h hk e with ⟨-, -, hstep⟩ | ⟨-, saving, -, -, hstep⟩
      · exact ⟨_, hstep⟩
      · exact ⟨_, hstep⟩
  | addPhotoToLocation index image => exact ⟨_, rfl⟩
  | authStateChanged user => exact ⟨_, rfl⟩

/-- No event traps, and every event keeps the invariant. -/
theorem step_total (h : Inv services s) (e : Event Image) :
    ∃ s', step services s e = some s' ∧ Inv services s' := by
  cases e with
  | logInButtonTapped =>
    refine ⟨_, rfl, h.session, fun logIn hlogIn => ?_⟩
    rcases List.mem_append.mp hlogIn with hold | hnew
    · exact h.visible logIn hold
    · rw [List.mem_singleton.mp hnew]
      rfl
  | signIn i result => exact ⟨_, rfl, inv_signInCompletion h i result⟩
  | save e =>
    obtain ⟨session, hsession⟩ := session_step_total h.session e
    refine ⟨{ s with session }, ?_, step_inv h.session hsession, h.visible⟩
    rw [step, hsession, Option.map_some]

/-- An event of the sessions breaks a save exactly when it does not meet the condition. -/
theorem unbroken_save_iff (h : Inv services s) {e : SaveEvent Image}
    {session : Session.State Image Data}
    (hstep : Session.step services s.session e.toSession = some session) :
    Unbroken { s with session } ↔ Unbroken s ∧ Proceeds services s (.save e) := by
  have hcase := step_cases h.session hstep
  cases e with
  | shouldSelect =>
    show Unbroken { s with session } ↔ Unbroken s ∧ True
    rw [and_true]
    cases (show StepCase services s.session .shouldSelect session from hcase) with
    | ignored => exact Iff.rfl
    | present =>
      refine and_congr_right fun _ => ⟨fun hall k editor hk => ?_, fun hall => ?_⟩
      · have hlt := (List.getElem?_eq_some_iff.mp hk).1
        refine hall k editor ?_
        rw [Session.State.present, List.getElem?_append_left hlt, hk]
      · -- a new editor has no attempt
        refine forall_append ?_ hall
        simp [Save.Unbroken, Session.State.newEditor, SavingController.fresh]
  | didPick place =>
    show Unbroken { s with session } ↔ Unbroken s ∧ True
    cases (show StepCase services s.session (.didPick place) session from hcase) with
    | ignored => rw [and_true]
    | didPick place hscreen hk =>
      rw [Unbroken, Unbroken, and_assoc]
      exact and_congr_right fun _ => forall_set_iff hk (and_true _).symm.to_iff
  | controller k e =>
    cases (show StepCase services s.session (.controller k e) session from hcase) with
    | ignored he =>
      -- no controller handles the event
      refine (and_iff_left fun editor hk hyes => ?_).symm
      rcases he with hnone | ⟨rfl, hscreen⟩
      · rw [hk] at hnone
        cases hnone
      · exact absurd (hyes rfl) hscreen
    | @controller k editor e saving hk hyes hsaving hdo =>
      have hiff := unbroken_iff_proceeds (h.session.saving k editor hk).1 hdo
      have hproceeds : Proceeds services s (.save (.controller k e)) ↔
          Save.Proceeds services s.session.itinerary s.session.currentUser editor.saving e := by
        simp only [Proceeds, SaveProceeds, hk, Option.some.injEq, forall_eq']
        exact ⟨fun hall => hall hyes, fun hproceeds _ => hproceeds⟩
      rw [hproceeds, Unbroken, Unbroken, and_assoc]
      exact and_congr_right fun _ => forall_set_iff hk hiff
  | addPhotoToLocation index image =>
    rw [← Option.some.inj hstep]
    exact (and_iff_left trivial).symm
  | authStateChanged user =>
    rw [← Option.some.inj hstep]
    exact (and_iff_left trivial).symm

/-- An event keeps everything unbroken exactly when it meets the condition. -/
theorem unbroken_step_iff (h : Inv services s) {e : Event Image}
    (hstep : step services s e = some s') :
    Unbroken s' ↔ Unbroken s ∧ Proceeds services s e := by
  cases e with
  | logInButtonTapped =>
    rw [← Option.some.inj hstep]
    simp [Unbroken, logInButtonTapped, Proceeds]
  | signIn i result =>
    rw [← Option.some.inj hstep]
    refine Iff.trans ?_ (and_iff_left trivial).symm
    rcases signInCompletion_cases i result s with heq | ⟨logIn, shared, user, -, heq⟩
    · rw [heq]
    · rw [heq]
      simp [Unbroken]
  | save e =>
    obtain ⟨session, hsession, rfl⟩ := Option.map_eq_some_iff.mp hstep
    exact unbroken_save_iff h hsession

/-- In a quiescent state the HUDs still showing are those of the logins and of the broken saves. -/
theorem noneShowing_iff_unbroken (h : Inv services s) (hquiescent : Quiescent s) :
    NoneShowing s ↔ Unbroken s := by
  have hsave : ∀ (k : ℕ) editor, s.session.editors[k]? = some editor →
      ∀ att ∈ editor.saving.attempts, (att.progressView = false ↔ ¬ att.stage.IsBroken) := by
    intro k editor hk att hatt
    obtain ⟨hinv, hsettled⟩ := h.session.saving k editor hk
    obtain ⟨a, ha⟩ := List.mem_iff_getElem?.mp hatt
    have hpending := hquiescent.2 editor (List.mem_of_getElem? hk) att hatt
    -- the HUD of a save is showing as long as its completion has not been called
    rw [(hinv.attempts a att ha).progressView]
    cases hstage : att.stage with
    | saving j => exact absurd hstage (hsettled att hatt j)
    | putData | downloadURL | updateChildValues =>
      rw [hstage] at hpending
      exact absurd trivial hpending
    | failed | ended | rejected => simp [Stage.completions, Stage.IsBroken]
    | finished => simp [Stage.completions, Stage.IsBroken]
  constructor
  · rintro ⟨hlogIns, heditors⟩
    refine ⟨List.eq_nil_iff_forall_not_mem.mpr fun logIn hlogIn => ?_,
      fun k editor hk att hatt => ?_⟩
    · have hvisible := h.visible logIn hlogIn
      rw [hlogIns logIn hlogIn] at hvisible
      cases hvisible
    · exact (hsave k editor hk att hatt).mp (heditors editor (List.mem_of_getElem? hk) att hatt)
  · rintro ⟨hlogIns, heditors⟩
    refine ⟨fun logIn hlogIn => ?_, fun editor heditor att hatt => ?_⟩
    · rw [hlogIns] at hlogIn
      cases hlogIn
    · obtain ⟨k, hk⟩ := List.mem_iff_getElem?.mp heditor
      exact (hsave k editor hk att hatt).mpr (heditors k editor hk att hatt)

end Step

/-- For every run of login attempts and saves, with any outcomes: no event traps, and if all
asynchronous calls have called back in the state it reaches, then no HUD is showing there exactly
when every step of the run met the condition. -/
theorem noneShowing_iff_proceeds (services : Services Image Data) (user : Option String)
    (es : List (Event Image)) :
    ∃ s, (step services).exec (State.launch user) es = some s ∧
      (Quiescent s →
        (NoneShowing s ↔ (step services).EachStep (Proceeds services) (State.launch user) es)) := by
  obtain ⟨s, hs, hinv⟩ := PartialStep.exec_total es (fun e _ s h => step_total h e)
    (inv_launch services user)
  refine ⟨s, hs, fun hquiescent => ?_⟩
  -- a broken save stays broken, so the last state tells about every step
  have hend := PartialStep.end_iff_eachStep (K := Inv services) (P := Unbroken)
    (C := Proceeds services) (fun s e s' h hs' => ?_) (fun s e s' h hs' => unbroken_step_iff h hs')
    es (inv_launch services user) hs
  · rw [noneShowing_iff_unbroken hinv hquiescent, hend, and_iff_right]
    simp [Unbroken, State.launch, Session.State.launch]
  · obtain ⟨t, ht, hinv'⟩ := step_total h e
    exact Option.some.inj (ht.symm.trans hs') ▸ hinv'

/-- The HUD of a login is still showing after `signIn` has called back. -/
theorem logIn_showing :
    ∃ s, (step plainServices).exec (State.launch none) [.logInButtonTapped, .signIn 0 .error] =
      some s ∧ Quiescent s ∧ ¬ NoneShowing s := by
  refine ⟨_, rfl, ⟨?_, ?_⟩, fun hnone => ?_⟩
  · intro logIn hlogIn
    rw [List.mem_singleton.mp hlogIn]
  · intro editor heditor
    cases heditor
  · exact absurd (hnone.1 _ (List.mem_singleton_self _)) (by decide)

end Progress

end DateCourse
