import Mathlib.Data.List.TakeWhile
import DateCourse.Auth.SignIn

/-!
# Who reaches the main screen

The login callback lets only verified accounts through, but the launch looks at `currentUser` alone
and the callbacks of a sign-up do not look at the screen. `verifiedOnMain_iff` says which steps let
an unverified account, or nobody, be signed in while the main screen is shown.

## Main definitions

* `LiesOver` and `Stacked`: which controller can lie directly over which;
* `VerifiedOnMain`: the current user has a verified email while the main screen is shown;
* `StaysVerified`: the condition on one step.

## Main results

* `step_spec`: every event keeps the order of the controllers, and which keep `VerifiedOnMain`;
* `completion_verifiedOnMain_iff`: what the callbacks may do while the main screen is shown;
* `verifiedOnMain_iff`: the exact condition, for every run.
-/

namespace DateCourse.SignIn

/-- Which controller can lie directly over which. -/
def LiesOver (upper lower : Screen) : Prop :=
  match upper.kind with
  | .main | .signUp => lower.kind = .logIn
  | .logIn => lower.kind = .main
  | .alert _ => lower.kind = .logIn ∨ lower.kind = .signUp

/-- The controllers lie over each other as the app presents them. -/
def Stacked (s : State) : Prop := s.screens.IsChain LiesOver

/-- The main screen is the screen being shown. -/
def ShowsMain (s : State) : Prop := s.screens.head?.map (·.kind) = some .main

/-- While the main screen is shown, somebody is signed in and has a verified email. -/
def VerifiedOnMain (s : State) : Prop :=
  ShowsMain s → ∃ email, s.currentUser = some email ∧ s.accounts email = some true

/-- What a callback may do while the main screen is shown. -/
def KeepsVerified (s : State) (call : Call) (success throws : Bool) : Prop :=
  match call with
  | .createUser _ email => ¬ (success = true ∧ s.accounts email = none)
  | .logIn _ email | .sendEmail _ email => success = true → s.accounts email ≠ some false
  | .sendEmailVerification _ => throws = true

/-- The condition on one step. A launch finds nobody signed in, or a verified account. While the
main screen is shown, no account is created, no `signIn` of an unverified account succeeds, and no
callback of `sendEmailVerification` signs out. -/
def StaysVerified (s : State) : Event → Prop
  | .launch => s.screens = [] → ∀ email, s.currentUser = some email → s.accounts email = some true
  | .callback i success _ throws => ShowsMain s → ∀ call, s.pending[i]? = some call →
    KeepsVerified s call success throws
  | _ => True

/-! ## The order of the controllers -/

section Screens

variable {s : State}

/-- A controller that can lie over the presenting one may be presented. -/
theorem stacked_present (h : Stacked s) {on : Screen} {kind : Kind}
    (hover : LiesOver ⟨s.nextId, kind⟩ on) : Stacked (present on kind s) := by
  unfold present Stacked
  split
  next hon =>
    refine List.IsChain.cons h fun lower hlower => ?_
    obtain rfl : on = lower := Option.some.inj (hon.symm.trans hlower)
    exact hover
  next => exact h

/-- The controllers below one are in order. -/
theorem stacked_dropWhile (h : Stacked s) (screen : Screen) :
    (s.screens.dropWhile (· ≠ screen)).IsChain LiesOver := by
  have happend : (s.screens.takeWhile (· ≠ screen) ++
      s.screens.dropWhile (· ≠ screen)).IsChain LiesOver := by
    rw [List.takeWhile_append_dropWhile]
    exact h
  exact (List.isChain_append.mp happend).2.1

/-- Dismissing keeps the order. -/
theorem stacked_dismiss (h : Stacked s) (screen : Screen) : Stacked (dismiss screen s) := by
  have hdrop := stacked_dropWhile h screen
  unfold dismiss
  split
  next => exact h
  next self below hself =>
    rw [hself] at hdrop
    split
    · exact hdrop.tail
    · exact hdrop

/-- Presenting anything but the main screen does not show it. -/
theorem showsMain_present {on : Screen} {kind : Kind} (hkind : kind ≠ .main)
    (h : ShowsMain (present on kind s)) : ShowsMain s := by
  unfold present at h
  split at h
  · exact absurd (Option.some.inj h) hkind
  · exact h

/-- Below the main screen and a login screen there are only such screens. -/
theorem kind_of_mem (h : Stacked s) {top : Screen} {below : List Screen}
    (hscreens : s.screens = top :: below) (htop : top.kind = .main ∨ top.kind = .logIn) :
    ∀ screen ∈ s.screens, screen.kind = .main ∨ screen.kind = .logIn := by
  rw [Stacked, hscreens] at h
  rw [hscreens]
  clear hscreens
  induction below generalizing top with
  | nil =>
    intro screen hscreen
    rw [List.mem_singleton.mp hscreen]
    exact htop
  | cons next below ih =>
    obtain ⟨hover, hrest⟩ := List.isChain_cons_cons.mp h
    have hnext : next.kind = .main ∨ next.kind = .logIn := by
      unfold LiesOver at hover
      rcases htop with htop | htop <;> rw [htop] at hover
      · exact Or.inr hover
      · exact Or.inl hover
    intro screen hscreen
    -- go down the chain: below a main screen lies a login screen, and below that a main screen
    rcases List.mem_cons.mp hscreen with rfl | hscreen
    · exact htop
    · exact ih hrest hnext screen hscreen

/-- While the main screen is shown, there is no sign-up screen to dismiss. -/
theorem dismiss_of_showsMain (h : Stacked s) (hmain : ShowsMain s) (id : ℕ) :
    dismiss ⟨id, .signUp⟩ s = s := by
  have hnone : s.screens.dropWhile (· ≠ ⟨id, .signUp⟩) = [] := by
    cases hscreens : s.screens with
    | nil => rfl
    | cons top below =>
      have htop : top.kind = .main := by
        rw [ShowsMain, hscreens] at hmain
        exact Option.some.inj hmain
      have hkind := kind_of_mem h hscreens (Or.inl htop)
      rw [← hscreens, List.dropWhile_eq_nil_iff]
      intro screen hscreen
      have hne : screen ≠ ⟨id, .signUp⟩ := by
        rintro rfl
        exact absurd (hkind _ hscreen) (by simp)
      simpa using hne
  unfold dismiss
  rw [hnone]

/-- Dismissing the sign-up screen, or what it presents, does not show the main screen. -/
theorem showsMain_dismiss (h : Stacked s) {id : ℕ} (hmain : ShowsMain (dismiss ⟨id, .signUp⟩ s)) :
    ShowsMain s := by
  have hdrop := stacked_dropWhile h ⟨id, .signUp⟩
  unfold dismiss at hmain
  split at hmain
  next => exact hmain
  next self below hself =>
    have hsignUp : self.kind = .signUp := by
      have hhead := List.head?_dropWhile_not (· ≠ (⟨id, .signUp⟩ : Screen)) s.screens
      rw [hself] at hhead
      have heq : self = ⟨id, .signUp⟩ := by simpa using hhead
      rw [heq]
    rw [hself] at hdrop
    split at hmain
    next =>
      -- a sign-up screen lies over a login screen
      cases below with
      | nil => cases hmain
      | cons lower below =>
        have hover := (List.isChain_cons_cons.mp hdrop).1
        have hlower : lower.kind = .main := Option.some.inj hmain
        unfold LiesOver at hover
        rw [hsignUp, hlower] at hover
        cases hover
    next =>
      have hself' : self.kind = .main := Option.some.inj hmain
      rw [hsignUp] at hself'
      cases hself'

/-- Nothing is presented on another controller while the main screen is shown. -/
theorem present_of_showsMain (hmain : ShowsMain s) {on : Screen} (hon : on.kind ≠ .main)
    (kind : Kind) : present on kind s = s := by
  unfold present
  rw [if_neg]
  intro htop
  rw [ShowsMain, htop] at hmain
  exact hon (Option.some.inj hmain)

end Screens

/-! ## Callbacks -/

section Callbacks

variable {s : State}

/-- The callbacks keep the order of the controllers. -/
theorem stacked_completion (h : Stacked s) (call : Call) (success : Bool) (text : String)
    (throws : Bool) : Stacked (completion call success text throws s) := by
  cases call with
  | createUser self email =>
    simp only [completion, createUserCompletion]
    split
    · exact stacked_dismiss (by exact h) _
    · exact stacked_present h (by exact Or.inr rfl)
  | logIn self email =>
    simp only [completion, logInCompletion]
    split
    · exact stacked_present (by exact h) (by exact rfl)
    · rw [Stacked, screens_signOut]
      exact stacked_present (by exact h) (by exact Or.inl rfl)
    · exact stacked_present h (by exact Or.inl rfl)
  | sendEmail self email =>
    simp only [completion, sendEmailCompletion]
    split <;> exact h
  | sendEmailVerification self =>
    rw [completion, sendEmailVerificationCompletion, Stacked, screens_signOut]
    exact stacked_present h (Or.inr rfl)

/-- A callback that runs while another screen is shown can only bring up the main screen for a
verified account. -/
theorem completion_verifiedOnMain (h : Stacked s) (hmain : ¬ ShowsMain s) (call : Call)
    (success : Bool) (text : String) (throws : Bool) :
    VerifiedOnMain (completion call success text throws s) := by
  cases call with
  | createUser self email =>
    simp only [completion, createUserCompletion]
    split
    · exact fun hshows => absurd (showsMain_dismiss (by exact h) hshows) hmain
    · exact fun hshows => absurd (showsMain_present (by simp) hshows) hmain
  | logIn self email =>
    simp only [completion, logInCompletion]
    split
    next hverified =>
      exact fun _ => ⟨email, by rw [currentUser_present], by rw [accounts_present]; exact hverified⟩
    next =>
      intro hshows
      rw [ShowsMain, screens_signOut] at hshows
      exact absurd (showsMain_present (by simp) hshows) hmain
    next => exact fun hshows => absurd (showsMain_present (by simp) hshows) hmain
  | sendEmail self email =>
    simp only [completion, sendEmailCompletion]
    split
    · exact fun hshows => absurd hshows hmain
    · exact fun hshows => absurd hshows hmain
  | sendEmailVerification self =>
    intro hshows
    rw [completion, sendEmailVerificationCompletion, ShowsMain, screens_signOut] at hshows
    exact absurd (showsMain_present (by simp) hshows) hmain

/-- A callback that runs while the main screen is shown leaves it shown, and decides who is signed
in. -/
theorem completion_verifiedOnMain_iff (h : Stacked s) (hmain : ShowsMain s) (hP : VerifiedOnMain s)
    (call : Call) (success : Bool) (text : String) (throws : Bool) :
    VerifiedOnMain (completion call success text throws s) ↔
      KeepsVerified s call success throws := by
  -- the main screen stays, so only the accounts and the current user count
  have hstays : ∀ (user : Option String) (accounts : String → Option Bool) (pending : List Call),
      (VerifiedOnMain { s with currentUser := user, accounts, pending } ↔
        ∃ email, user = some email ∧ accounts email = some true) :=
    fun user accounts pending => ⟨fun hverified => hverified hmain, fun hverified _ => hverified⟩
  have hsignUp : ∀ self kind, present ⟨self, .signUp⟩ kind s = s :=
    fun self kind => present_of_showsMain hmain (by simp) kind
  cases call with
  | createUser self email =>
    simp only [completion, createUserCompletion, KeepsVerified]
    split
    next hcreated =>
      -- the new account is signed in, and it is not verified
      rw [dismiss_of_showsMain (by exact h) (by exact hmain), hstays]
      refine iff_of_false ?_ (not_not.mpr hcreated)
      rintro ⟨email', hemail, hverified⟩
      rw [← Option.some.inj hemail, Function.update_self] at hverified
      cases hverified
    next hnot =>
      rw [hsignUp]
      exact iff_of_true hP hnot
  | logIn self email =>
    simp only [completion, logInCompletion, KeepsVerified]
    split
    next hverified =>
      rw [present_of_showsMain (by exact hmain) (by simp), hstays]
      exact iff_of_true ⟨email, rfl, hverified⟩ fun _ => by rw [hverified]; simp
    next hunverified =>
      rw [present_of_showsMain (by exact hmain) (by simp)]
      refine iff_of_false ?_ fun hne => hne rfl hunverified
      -- `signOut` leaves nobody signed in; if it throws, the unverified account stays
      cases throws with
      | true =>
        rintro hverified
        obtain ⟨email', hemail, hverified⟩ := hverified hmain
        rw [← Option.some.inj hemail] at hverified
        exact absurd (hunverified.symm.trans hverified) (by simp)
      | false =>
        intro hverified
        obtain ⟨email', hemail, -⟩ := hverified hmain
        cases hemail
    next hnot hunverified =>
      rw [present_of_showsMain hmain (by simp)]
      exact iff_of_true hP fun hsuccess => hunverified hsuccess
  | sendEmail self email =>
    simp only [completion, sendEmailCompletion, KeepsVerified]
    split
    next hsignedIn =>
      rw [hstays]
      obtain ⟨verified, hverified⟩ := Option.ne_none_iff_exists'.mp hsignedIn.2
      rw [hverified]
      cases verified with
      | true => exact iff_of_true ⟨email, rfl, hverified⟩ (by simp)
      | false =>
        refine iff_of_false ?_ (by simp [hsignedIn.1])
        rintro ⟨email', hemail, hverified'⟩
        rw [← Option.some.inj hemail, hverified] at hverified'
        cases hverified'
    next hnot =>
      refine iff_of_true hP fun hsuccess hunverified => hnot ⟨hsuccess, ?_⟩
      rw [hunverified]
      simp
  | sendEmailVerification self =>
    rw [completion, sendEmailVerificationCompletion, hsignUp]
    cases throws with
    | true => exact iff_of_true hP rfl
    | false =>
      refine iff_of_false (fun hverified => ?_) (by simp [KeepsVerified])
      obtain ⟨email, hemail, -⟩ := hverified hmain
      cases hemail

end Callbacks

/-! ## Taps -/

section Taps

variable {s : State}

/-- The taps other than sign-out change neither the accounts nor the current user, and do not bring
up the main screen. -/
structure Quiet (s s' : State) : Prop where
  stacked : Stacked s → Stacked s'
  showsMain : Stacked s → ShowsMain s' → ShowsMain s
  currentUser : s'.currentUser = s.currentUser
  accounts : s'.accounts = s.accounts

theorem Quiet.refl (s : State) : Quiet s s := ⟨id, fun _ => id, rfl, rfl⟩

/-- A quiet step keeps the main screen to verified accounts. -/
theorem Quiet.verifiedOnMain {s' : State} (h : Quiet s s') (hstacked : Stacked s)
    (hP : VerifiedOnMain s) : VerifiedOnMain s' := by
  intro hshows
  rw [h.currentUser, h.accounts]
  exact hP (h.showsMain hstacked hshows)

/-- Presenting another screen than the main one is quiet. -/
theorem quiet_present {on : Screen} {kind : Kind} (hover : LiesOver ⟨s.nextId, kind⟩ on)
    (hkind : kind ≠ .main) : Quiet s (present on kind s) :=
  ⟨fun h => stacked_present h hover, fun _ => showsMain_present hkind,
    currentUser_present s on kind, accounts_present s on kind⟩

/-- Dismissing the sign-up screen is quiet. -/
theorem quiet_dismiss (id : ℕ) : Quiet s (dismiss ⟨id, .signUp⟩ s) :=
  ⟨fun h => stacked_dismiss h _, fun h => showsMain_dismiss h, currentUser_dismiss s _,
    accounts_dismiss s _⟩

/-- Tapping log in is quiet. -/
theorem quiet_logInButtonTapped (email : String) : Quiet s (logInButtonTapped email s) := by
  unfold logInButtonTapped
  split
  · exact ⟨id, fun _ => id, rfl, rfl⟩
  · exact .refl s

/-- Tapping sign up is quiet. -/
theorem quiet_signUpButtonTapped : Quiet s (signUpButtonTapped s) := by
  unfold signUpButtonTapped
  split
  · exact quiet_present rfl (by simp)
  · exact .refl s

/-- Tapping create account is quiet. -/
theorem quiet_createAccountTapped (email : String) (isFieldEmpty : Bool) :
    Quiet s (createAccountTapped email isFieldEmpty s) := by
  unfold createAccountTapped
  split
  · split
    · exact ⟨id, fun _ => id, rfl, rfl⟩
    · exact quiet_present (Or.inr rfl) (by simp)
  · exact .refl s

/-- Tapping cancel is quiet. -/
theorem quiet_cancelButtonTapped : Quiet s (cancelButtonTapped s) := by
  unfold cancelButtonTapped
  split
  · exact quiet_dismiss _
  · exact .refl s

/-- Closing an alert is quiet. -/
theorem quiet_closeAlert : Quiet s (closeAlert s) := by
  unfold closeAlert
  split
  next id below hscreens =>
    refine ⟨fun h => ?_, fun h hshows => ?_, rfl, rfl⟩
    · rw [Stacked, hscreens] at h
      exact h.tail
    · -- an alert lies over a login or a sign-up screen
      cases below with
      | nil => cases hshows
      | cons lower below =>
        rw [Stacked, hscreens] at h
        have hover : lower.kind = .logIn ∨ lower.kind = .signUp := (List.isChain_cons_cons.mp h).1
        have hlower : lower.kind = .main := Option.some.inj hshows
        rw [hlower] at hover
        simp at hover
  next => exact .refl s

/-- Signing out covers the main screen with a login screen. -/
theorem signOutButtonPressed_spec (h : Stacked s) (hP : VerifiedOnMain s) (throws : Bool) :
    Stacked (signOutButtonPressed throws s) ∧ VerifiedOnMain (signOutButtonPressed throws s) := by
  unfold signOutButtonPressed
  split
  next id htop =>
    split
    next => exact ⟨h, hP⟩
    next =>
      refine ⟨stacked_present (by exact h) (by exact rfl), fun hshows => ?_⟩
      rw [present, if_pos (by exact htop)] at hshows
      cases hshows
  next => exact ⟨h, hP⟩

end Taps

/-! ## Runs -/

/-- Without screens the main screen is not shown. -/
theorem not_showsMain_of_screens_eq_nil {s : State} (h : s.screens = []) : ¬ ShowsMain s := by
  rw [ShowsMain, h]
  simp

/-- The first screen is the main screen exactly when somebody is signed in. -/
theorem didFinishLaunching_verifiedOnMain_iff (s : State) :
    VerifiedOnMain (didFinishLaunching s) ↔
      ∀ email, s.currentUser = some email → s.accounts email = some true := by
  cases huser : s.currentUser with
  | none =>
    refine iff_of_true (fun hshows => ?_) (by simp)
    simp [ShowsMain, didFinishLaunching, huser] at hshows
  | some email =>
    have hshows : ShowsMain (didFinishLaunching s) := by
      simp [ShowsMain, didFinishLaunching, huser]
    constructor
    · intro hverified email' hemail'
      obtain rfl := Option.some.inj hemail'
      obtain ⟨email'', hemail, hverified⟩ := hverified hshows
      rw [← Option.some.inj (huser.symm.trans hemail)] at hverified
      exact hverified
    · exact fun hall _ => ⟨email, huser, hall email rfl⟩

/-- Every event keeps the order of the controllers, and the condition on it says exactly that it
keeps the main screen to verified accounts. -/
theorem step_spec {s : State} (h : Stacked s) (hP : VerifiedOnMain s) (e : Event) :
    ∃ s', step s e = some s' ∧ Stacked s' ∧ (StaysVerified s e ↔ VerifiedOnMain s') := by
  have hquiet : ∀ {s' : State}, Quiet s s' → Stacked s' ∧ (True ↔ VerifiedOnMain s') :=
    fun hq => ⟨hq.stacked h, iff_of_true trivial (hq.verifiedOnMain h hP)⟩
  cases e with
  | launch =>
    refine ⟨_, rfl, ?_⟩
    -- a launch while the process runs is no launch
    by_cases hscreens : s.screens = []
    · rw [if_pos hscreens, didFinishLaunching_verifiedOnMain_iff]
      exact ⟨List.isChain_singleton _, fun hall => hall hscreens, fun hall _ => hall⟩
    · rw [if_neg hscreens]
      exact ⟨h, iff_of_true (fun hnil => absurd hnil hscreens) hP⟩
  | kill =>
    exact ⟨_, rfl, List.isChain_nil,
      iff_of_true trivial fun hshows => absurd hshows (not_showsMain_of_screens_eq_nil rfl)⟩
  | verifyEmail email =>
    refine ⟨_, rfl, h, iff_of_true trivial fun hshows => ?_⟩
    obtain ⟨email', hemail, hverified⟩ := hP hshows
    refine ⟨email', hemail, ?_⟩
    show Function.update s.accounts email ((s.accounts email).map fun _ => true) email' = some true
    by_cases heq : email' = email
    · subst heq
      rw [Function.update_self, hverified, Option.map_some]
    · rw [Function.update_of_ne heq]
      exact hverified
  | logInButtonTapped email => exact ⟨_, rfl, hquiet (quiet_logInButtonTapped email)⟩
  | signUpButtonTapped => exact ⟨_, rfl, hquiet quiet_signUpButtonTapped⟩
  | createAccountTapped email isFieldEmpty =>
    exact ⟨_, rfl, hquiet (quiet_createAccountTapped email isFieldEmpty)⟩
  | cancelButtonTapped => exact ⟨_, rfl, hquiet quiet_cancelButtonTapped⟩
  | closeAlert => exact ⟨_, rfl, hquiet quiet_closeAlert⟩
  | signOutButtonPressed throws =>
    obtain ⟨hstacked, hverified⟩ := signOutButtonPressed_spec h hP throws
    exact ⟨_, rfl, hstacked, iff_of_true trivial hverified⟩
  | callback i success text throws =>
    simp only [step, StaysVerified]
    cases hi : s.pending[i]? with
    | none => exact ⟨s, rfl, h, iff_of_true (by simp) hP⟩
    | some call =>
      refine ⟨_, rfl, stacked_completion (by exact h) call success text throws, ?_⟩
      simp only [Option.some.injEq, forall_eq']
      -- the condition only speaks about the main screen
      by_cases hmain : ShowsMain s
      · rw [completion_verifiedOnMain_iff (by exact h) (by exact hmain) (by exact hP)]
        exact ⟨fun hkeeps => hkeeps hmain, fun hkeeps _ => hkeeps⟩
      · exact iff_of_true (fun hshows => absurd hshows hmain)
          (completion_verifiedOnMain (by exact h) (by exact hmain) call success text throws)

/-- For every interleaving of launches, kills, taps, verifications and callbacks: whenever the main
screen is shown, the current user is signed in and verified, if and only if every step of the run
meets the condition. -/
theorem verifiedOnMain_iff (accounts : String → Option Bool) (currentUser : Option String)
    (es : List Event) :
    step.Always VerifiedOnMain (State.start accounts currentUser) es ↔
      step.EachStep StaysVerified (State.start accounts currentUser) es := by
  refine PartialStep.always_iff_eachStep_of_total (K := Stacked) (fun s e hK hP => ?_) es
    List.isChain_nil (fun hshows => absurd hshows (not_showsMain_of_screens_eq_nil rfl))
  exact step_spec hK hP e

/-- An account is created, and the process is killed before the sign-up chain has signed out. -/
def killDuringSignUp : List Event :=
  [.launch, .signUpButtonTapped, .createAccountTapped "new" false, .callback 0 true "new" false,
    .kill, .launch]

/-- The relaunch shows the main screen to the account that has not been verified. -/
theorem killDuringSignUp_not_verifiedOnMain :
    ¬ step.Always VerifiedOnMain (State.start (fun _ => none) none) killDuringSignUp := by
  intro halways
  obtain ⟨s, hs, hshows, huser, haccount⟩ : ∃ s, step.exec (State.start (fun _ => none) none)
      killDuringSignUp = some s ∧ ShowsMain s ∧ s.currentUser = some "new" ∧
        s.accounts "new" = some false :=
    ⟨_, rfl, rfl, rfl, rfl⟩
  obtain ⟨email, hemail, hverified⟩ := halways.of_exec hs hshows
  rw [← Option.some.inj (huser.symm.trans hemail), haccount] at hverified
  cases hverified

end DateCourse.SignIn
