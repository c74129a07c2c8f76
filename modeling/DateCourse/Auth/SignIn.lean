import Mathlib.Data.List.Chain
import Mathlib.Logic.Function.Basic
import DateCourse.Machine.Run

/-!
# Launching, logging in and signing up

The screens of the app and the account that Firebase Auth keeps as `currentUser`. A process that is
killed loses its screens and its pending callbacks, but not `currentUser`. Presenting on a
controller that is not on top, or that has left the screen, has no effect, and neither has
dismissing one that has left.

## Main definitions

* `Screen` and the operations `present` and `dismiss`;
* `SignIn.State`, `Call` and the handlers of the taps and of the callbacks, one for each closure of
  `LogInViewController` and `SignUpViewController`;
* `didFinishLaunching`: the choice of the first screen;
* `SignIn.step`: the machine.
-/

namespace DateCourse.SignIn

/-- The controllers that the events concern. An alert is closed by its button, or by the completion
of its presentation; the alert about an email that was not sent has neither. -/
inductive Kind
  | logIn
  | signUp
  | main
  | alert (closable : Bool)
deriving DecidableEq

/-- A controller that has been presented; `id` is its identity. -/
structure Screen where
  id : ℕ
  kind : Kind
deriving DecidableEq

/-- A pending call of Firebase Auth, with the controller whose closure waits for it. -/
inductive Call
  /-- `createUser` in `createAccountTapped`. -/
  | createUser (signUp : ℕ) (email : String)
  /-- `signIn` in `logInButtonTapped`. -/
  | logIn (logIn : ℕ) (email : String)
  /-- `signIn` in `sendEmail`. -/
  | sendEmail (signUp : ℕ) (email : String)
  /-- `sendEmailVerification` in `sendEmail`. -/
  | sendEmailVerification (signUp : ℕ)
deriving DecidableEq

/-- The app and the accounts. -/
structure State where
  /-- The accounts, each with its `isEmailVerified`. -/
  accounts : String → Option Bool
  currentUser : Option String
  /-- The presented controllers, the one being shown first; none when no process runs. -/
  screens : List Screen
  /-- The identity of the next controller. -/
  nextId : ℕ
  pending : List Call

/-- The app is installed and not running. -/
def State.start (accounts : String → Option Bool) (currentUser : Option String) : State :=
  { accounts, currentUser, screens := [], nextId := 0, pending := [] }

/-! ## Screens and `signOut` -/

/-- `present(_:animated:)` on the controller `on`. -/
def present (on : Screen) (kind : Kind) (s : State) : State :=
  if s.screens.head? = some on then
    { s with screens := { id := s.nextId, kind } :: s.screens, nextId := s.nextId + 1 }
  else s

/-- `dismiss(animated:)` on a controller: it dismisses what the controller presents, or else the
controller itself. The root stays. -/
def dismiss (screen : Screen) (s : State) : State :=
  match s.screens.dropWhile (· ≠ screen) with
  | [] => s
  | self :: below =>
    if s.screens.head? = some screen ∧ below ≠ [] then { s with screens := below }
    else { s with screens := self :: below }

/-- `try Auth.auth().signOut()` in a `do` that ignores the error. -/
def signOut (throws : Bool) (s : State) : State :=
  if throws then s else { s with currentUser := none }

/-! ## Handlers -/

/-- `application(_:didFinishLaunchingWithOptions:)`. -/
def didFinishLaunching (s : State) : State :=
  let kind := if s.currentUser ≠ none then .main else .logIn
  { s with screens := [{ id := s.nextId, kind }], nextId := s.nextId + 1 }

/-- `logInButtonTapped`. -/
def logInButtonTapped (email : String) (s : State) : State :=
  match s.screens.head? with
  | some { id, kind := .logIn } => { s with pending := s.pending ++ [.logIn id email] }
  | _ => s

/-- The sign-up button of the login screen. -/
def signUpButtonTapped (s : State) : State :=
  match s.screens.head? with
  | some { id, kind := .logIn } => present ⟨id, .logIn⟩ .signUp s
  | _ => s

/-- `createAccountTapped`. -/
def createAccountTapped (email : String) (isFieldEmpty : Bool) (s : State) : State :=
  match s.screens.head? with
  | some { id, kind := .signUp } =>
    if !isFieldEmpty then { s with pending := s.pending ++ [.createUser id email] }
    else present ⟨id, .signUp⟩ (.alert true) s
  | _ => s

/-- `cancelButtonTapped` of the sign-up screen. -/
def cancelButtonTapped (s : State) : State :=
  match s.screens.head? with
  | some { id, kind := .signUp } => dismiss ⟨id, .signUp⟩ s
  | _ => s

/-- An alert is closed. -/
def closeAlert (s : State) : State :=
  match s.screens with
  | { id := _, kind := .alert true } :: below => { s with screens := below }
  | _ => s

/-- `SignOutButtonPressed` of the feed and `logoutButtonTapped` of the profile. -/
def signOutButtonPressed (throws : Bool) (s : State) : State :=
  match s.screens.head? with
  | some { id, kind := .main } =>
    if throws then s else present ⟨id, .main⟩ .logIn (signOut false s)
  | _ => s

/-- The completion of `createUser`; `text` is what the email field holds then. -/
def createUserCompletion (self : ℕ) (email : String) (success : Bool) (text : String) (s : State) :
    State :=
  if success = true ∧ s.accounts email = none then
    dismiss ⟨self, .signUp⟩
      { s with accounts := Function.update s.accounts email (some false), currentUser := some email,
               pending := s.pending ++ [.sendEmail self text] }
  else present ⟨self, .signUp⟩ (.alert true) s

/-- The completion of `signIn` in `logInButtonTapped`. -/
def logInCompletion (self : ℕ) (email : String) (success throws : Bool) (s : State) : State :=
  match success, s.accounts email with
  | true, some true => present ⟨self, .logIn⟩ .main { s with currentUser := some email }
  | true, some false =>
    signOut throws (present ⟨self, .logIn⟩ (.alert true) { s with currentUser := some email })
  | _, _ => present ⟨self, .logIn⟩ (.alert true) s

/-- The completion of `signIn` in `sendEmail`. -/
def sendEmailCompletion (self : ℕ) (email : String) (success : Bool) (s : State) : State :=
  if success = true ∧ s.accounts email ≠ none then
    { s with currentUser := some email, pending := s.pending ++ [.sendEmailVerification self] }
  else s

/-- The completion of `sendEmailVerification`. -/
def sendEmailVerificationCompletion (self : ℕ) (success throws : Bool) (s : State) : State :=
  signOut throws (present ⟨self, .signUp⟩ (.alert success) s)

/-! ## The machine -/

/-- The events of a run. -/
inductive Event
  | launch
  | kill
  | verifyEmail (email : String)
  | logInButtonTapped (email : String)
  | signUpButtonTapped
  | createAccountTapped (email : String) (isFieldEmpty : Bool)
  | cancelButtonTapped
  | closeAlert
  | signOutButtonPressed (throws : Bool)
  /-- Pending call `i` calls back: whether it succeeds, what the email field of the sign-up screen
  holds, and whether `signOut` throws if the closure calls it. -/
  | callback (i : ℕ) (success : Bool) (text : String) (throws : Bool)

/-- The closure of a pending call. -/
def completion (call : Call) (success : Bool) (text : String) (throws : Bool) (s : State) : State :=
  match call with
  | .createUser self email => createUserCompletion self email success text s
  | .logIn self email => logInCompletion self email success throws s
  | .sendEmail self email => sendEmailCompletion self email success s
  | .sendEmailVerification self => sendEmailVerificationCompletion self success throws s

/-- One event of the run. No event traps. -/
def step : PartialStep State Event
  | s, .launch => some (if s.screens = [] then didFinishLaunching s else s)
  | s, .kill => some { s with screens := [], pending := [] }
  | s, .verifyEmail email =>
    some { s with accounts := Function.update s.accounts email
                    ((s.accounts email).map fun _ => true) }
  | s, .logInButtonTapped email => some (logInButtonTapped email s)
  | s, .signUpButtonTapped => some (signUpButtonTapped s)
  | s, .createAccountTapped email isFieldEmpty => some (createAccountTapped email isFieldEmpty s)
  | s, .cancelButtonTapped => some (cancelButtonTapped s)
  | s, .closeAlert => some (closeAlert s)
  | s, .signOutButtonPressed throws => some (signOutButtonPressed throws s)
  | s, .callback i success text throws =>
    match s.pending[i]? with
    | some call =>
      some (completion call success text throws { s with pending := s.pending.eraseIdx i })
    | none => some s

/-! ## Frame lemmas -/

section Frame

variable (s : State)

/-- Presenting a controller signs nobody in or out. -/
@[simp]
theorem currentUser_present (on : Screen) (kind : Kind) :
    (present on kind s).currentUser = s.currentUser := by
  unfold present
  split <;> rfl

/-- Presenting a controller leaves the accounts alone. -/
@[simp]
theorem accounts_present (on : Screen) (kind : Kind) :
    (present on kind s).accounts = s.accounts := by
  unfold present
  split <;> rfl

/-- Dismissing a controller signs nobody in or out. -/
@[simp]
theorem currentUser_dismiss (screen : Screen) : (dismiss screen s).currentUser = s.currentUser := by
  unfold dismiss
  split
  · rfl
  · split <;> rfl

/-- Dismissing a controller leaves the accounts alone. -/
@[simp]
theorem accounts_dismiss (screen : Screen) : (dismiss screen s).accounts = s.accounts := by
  unfold dismiss
  split
  · rfl
  · split <;> rfl

/-- Signing out leaves the screens alone. -/
@[simp]
theorem screens_signOut (throws : Bool) : (signOut throws s).screens = s.screens := by
  unfold signOut
  split <;> rfl

end Frame

end DateCourse.SignIn
