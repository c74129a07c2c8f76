import DateCourse.Editor.SaveChain

/-!
# Chains that break off

A save chain that stops before its completion is called leaves its HUD behind. It stops at the
first early return it meets: a location without a usable photo, nobody signed in, or a callback
with an error.

## Main definitions

* `Stage.IsBroken`: the chain has stopped without calling its completion;
* `Save.CanSave`: what `savePhoto(index:)` needs to go on;
* `Save.Proceeds`: the condition under which an event breaks no chain.

## Main results

* `Save.unbroken_iff_proceeds`: an event breaks a chain exactly when it does not meet `Proceeds`.
-/

namespace DateCourse

open SavingController

variable {Image Data : Type} {services : Services Image Data}

/-- The chain has stopped without calling its completion. -/
def Stage.IsBroken : Stage Image Data → Prop
  | failed _ | ended _ | rejected _ => True
  | _ => False

namespace Save

/-- No chain of the controller has broken off. -/
def Unbroken (c : SavingController Image Data) : Prop :=
  ∀ att ∈ c.attempts, ¬ att.stage.IsBroken

/-- What `savePhoto(index:)` needs to go on: a photo that can be uploaded, or at the end of the
itinerary a signed-in user. -/
def CanSave (services : Services Image Data) (itinerary : CurrentItinerary Image)
    (user : Option String) (index : ℕ) : Prop :=
  if index = itinerary.LocationCount then user ≠ none
  else (itinerary.locations[index]?.bind (uploadDataOf services)).isSome

/-- The condition on an event: the callback brings no error and `savePhoto` can go on. -/
def Proceeds (services : Services Image Data) (itinerary : CurrentItinerary Image)
    (user : Option String) (c : SavingController Image Data) : ControllerEvent → Prop
  | .yes => CanSave services itinerary user 0
  | .putData a metadata error => ∀ k n ref, c.stageOf a = some (.putData k n ref) →
    error = false ∧ metadata = true
  | .downloadURL a url => ∀ k n ref, c.stageOf a = some (.downloadURL k n ref) →
    url = true ∧ CanSave services itinerary user (k + 1)
  | .updateChildValues a err => ∀ k, c.stageOf a = some (.updateChildValues k) → err = false

section Step

variable {itinerary : CurrentItinerary Image} {user : Option String} {a k : ℕ}
  {c c' : SavingController Image Data}

/-- An attempt that has not broken off changes. -/
theorem unbroken_update_iff {att : Attempt Image Data} (hatt : c.attempts[a]? = some att)
    (hold : ¬ att.stage.IsBroken) (f : Attempt Image Data → Attempt Image Data) :
    Unbroken (c.update a f) ↔ Unbroken c ∧ ¬ (f att).stage.IsBroken := by
  have hnew : (c.update a f).attempts[a]? = some (f att) := by
    rw [getElem?_attempts_update, if_pos rfl, hatt, Option.map_some]
  have hother : ∀ b, b ≠ a → (c.update a f).attempts[b]? = c.attempts[b]? := by
    intro b hb
    rw [getElem?_attempts_update, if_neg (Ne.symm hb)]
  constructor
  · intro h
    refine ⟨fun att' hatt' => ?_, h _ (List.mem_of_getElem? hnew)⟩
    obtain ⟨b, hb⟩ := List.mem_iff_getElem?.mp hatt'
    -- attempt `a` has not broken off before, the others are unchanged
    by_cases hba : b = a
    · subst hba
      rw [← Option.some.inj (hatt.symm.trans hb)]
      exact hold
    · exact h att' (List.mem_of_getElem? ((hother b hba).trans hb))
  · rintro ⟨h, hf⟩ att' hatt'
    obtain ⟨b, hb⟩ := List.mem_iff_getElem?.mp hatt'
    by_cases hba : b = a
    · subst hba
      rw [← Option.some.inj (hnew.symm.trans hb)]
      exact hf
    · exact h att' (List.mem_of_getElem? ((hother b hba).symm.trans hb))

theorem unbroken_setStage_iff {stage : Stage Image Data} (hstageOf : c.stageOf a = some stage)
    (hold : ¬ stage.IsBroken) (stage' : Stage Image Data) :
    Unbroken (c.setStage a stage') ↔ Unbroken c ∧ ¬ stage'.IsBroken := by
  obtain ⟨att, hatt, rfl⟩ := (c.stageOf_eq_some_iff a).mp hstageOf
  exact unbroken_update_iff hatt hold _

/-- A call of `savePhoto` breaks its chain exactly when it cannot go on. -/
theorem SavePhotoCase.unbroken_iff (hcase : SavePhotoCase services itinerary user a k c c')
    {att : Attempt Image Data} (hatt : c.attempts[a]? = some att) (hold : ¬ att.stage.IsBroken) :
    Unbroken c' ↔ Unbroken c ∧ CanSave services itinerary user k := by
  unfold CanSave
  rw [itinerary.LocationCount_eq]
  cases hcase with
  | signedOut hk huser =>
    rw [unbroken_update_iff hatt hold, if_pos hk]
    simp [afterSavePhoto, Stage.IsBroken, huser]
  | registers uid hk huser =>
    refine (unbroken_update_iff hatt hold _).trans ?_
    rw [if_pos hk]
    simp [afterSavePhoto, Stage.IsBroken, huser]
  | noPhoto hk hnone =>
    rw [unbroken_update_iff hatt hold, if_neg hk.ne, hnone]
    simp [afterSavePhoto, Stage.IsBroken]
  | uploads ref hk ha hi hfrom hsome =>
    rw [unbroken_update_iff hatt hold, if_neg hk.ne]
    simp [afterSavePhoto, Stage.IsBroken, hsome]

/-- A new attempt has not broken off. -/
theorem unbroken_newAttempt_iff :
    Unbroken { c with attempts := c.attempts ++ [.start] } ↔ Unbroken c := by
  simp only [Unbroken, List.forall_mem_append, List.forall_mem_singleton, and_iff_left_iff_imp]
  exact fun _ => id

/-- An event breaks a chain exactly when it does not meet `Proceeds`. -/
theorem unbroken_iff_proceeds (h : ControllerInv services itinerary.places c) {e : ControllerEvent}
    (hstep : controllerStep services itinerary user c e = some c') :
    Unbroken c' ↔ Unbroken c ∧ Proceeds services itinerary user c e := by
  cases controllerCase_of_step h hstep with
  | ignored he =>
    refine (and_iff_left ?_).symm
    cases e with
    | yes => exact he.elim
    | putData a metadata error => exact fun k n ref hstage => absurd hstage (he k n ref)
    | downloadURL a url => exact fun k n ref hstage => absurd hstage (he k n ref)
    | updateChildValues a err => exact fun k hstage => absurd hstage (he k)
  | yes hcase =>
    rw [hcase.unbroken_iff List.getElem?_concat_length (by exact id), unbroken_newAttempt_iff]
    rfl
  | uploadFailed hstage hfail =>
    rw [unbroken_setStage_iff hstage id]
    refine and_congr_right fun _ => iff_of_false (by simp [Stage.IsBroken]) fun hproceeds => ?_
    exact hfail (hproceeds _ _ _ hstage)
  | uploaded hstage =>
    rw [unbroken_setStage_iff hstage id]
    exact and_congr_right fun _ => iff_of_true id fun _ _ _ _ => ⟨rfl, rfl⟩
  | noURL hstage =>
    rw [unbroken_setStage_iff hstage id]
    refine and_congr_right fun _ => iff_of_false (by simp [Stage.IsBroken]) fun hproceeds => ?_
    exact absurd (hproceeds _ _ _ hstage).1 (by simp)
  | @recorded a k n ref _ hstage hcase =>
    obtain ⟨att, hatt, -⟩ := h.stageInv hstage
    -- recording a URL breaks nothing; what follows is the next call of `savePhoto`
    have hsame : Unbroken ({ c with photoIDs := c.photoIDs ++ [ref] }.setStage a
        (.saving (k + 1))) ↔ Unbroken c := by
      refine (unbroken_setStage_iff hstage id _).trans ?_
      rw [and_iff_left (by exact id)]
    rw [hcase.unbroken_iff (getElem?_attempts_setStage_self hatt _) id, hsame]
    simp [Proceeds, hstage]
  | rejected hstage =>
    rw [unbroken_setStage_iff hstage id]
    refine and_congr_right fun _ => iff_of_false (by simp [Stage.IsBroken]) fun hproceeds => ?_
    exact absurd (hproceeds _ hstage) (by simp)
  | finished hstage =>
    obtain ⟨att, hatt, hattStage, -⟩ := h.stageInv hstage
    rw [unbroken_update_iff hatt (hattStage ▸ id)]
    exact and_congr_right fun _ => iff_of_true id fun _ _ => rfl

end Step

end Save

end DateCourse
