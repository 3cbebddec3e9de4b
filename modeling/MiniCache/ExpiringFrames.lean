import MiniCache.ExpiringMap

/-!
# What effects leave alone

Effects on some keys leave the other keys as they are, and what they make of the live part of
a cell depends on the live part of that cell only.
-/

namespace ExpiringMap

variable {κ ν τ : Type*} [LinearOrder τ] [DecidableEq κ] {now : τ} {space other : κ → Cell ν τ}
  {key : κ}

/-- An effect on one of some keys. -/
def Effect.On (keys : List κ) : Effect κ ν τ → Prop
  | .act key _ => key ∈ keys
  | .flush => False

theorem Effect.On.apply {effect : Effect κ ν τ} {keys : List κ} (on : effect.On keys)
    (apart : key ∉ keys) : effect.apply now space key = space key := by
  cases effect with
  | act place action =>
      exact Effect.apply_act_of_ne _ _ _ fun same => apart (same ▸ on)
  | flush => exact on.elim

theorem applyAll_of_on {effects : List (Effect κ ν τ)} {keys : List κ}
    (on : ∀ effect ∈ effects, effect.On keys) (apart : key ∉ keys) :
    applyAll now effects space key = space key := by
  induction effects generalizing space with
  | nil => rfl
  | cons effect effects ih =>
      obtain ⟨first, rest⟩ := List.forall_mem_cons.mp on
      rw [applyAll_cons, ih rest, first.apply apart]

theorem Effect.live_apply_congr (effect : Effect κ ν τ)
    (same : live now (space key) = live now (other key)) :
    live now (effect.apply now space key) = live now (effect.apply now other key) := by
  unfold Effect.apply
  cases effect.actionAt key with
  | none => exact same
  | some action =>
      dsimp only
      rw [← action.live_apply_live now (space key), same, action.live_apply_live]

theorem live_applyAll_congr (effects : List (Effect κ ν τ))
    (same : live now (space key) = live now (other key)) :
    live now (applyAll now effects space key) = live now (applyAll now effects other key) := by
  induction effects generalizing space other with
  | nil => exact same
  | cons effect effects ih => exact ih (effect.live_apply_congr same)

/-- At a key only those effects matter that may be on it. -/
theorem live_applyAll_filter {α : Type*} {items : List α} {effect : α → Effect κ ν τ}
    {may : α → Bool}
    (apart : ∀ item ∈ items, may item = false →
      ∃ keys : List κ, (effect item).On keys ∧ key ∉ keys)
    (same : live now (space key) = live now (other key)) :
    live now (applyAll now ((items.filter may).map effect) space key) =
      live now (applyAll now (items.map effect) other key) := by
  induction items generalizing space other with
  | nil => exact same
  | cons item items ih =>
      obtain ⟨first, rest⟩ := List.forall_mem_cons.mp apart
      rw [List.map_cons, applyAll_cons]
      cases here : may item with
      | true =>
          rw [List.filter_cons_of_pos here, List.map_cons, applyAll_cons]
          exact ih rest ((effect item).live_apply_congr same)
      | false =>
          obtain ⟨keys, on, away⟩ := first here
          rw [List.filter_cons_of_neg (by rw [here]; exact Bool.false_ne_true)]
          refine ih rest ?_
          rw [on.apply away]
          exact same

end ExpiringMap
