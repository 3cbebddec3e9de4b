import Mathlib.Data.Option.Basic
import Mathlib.Logic.Function.Basic
import Mathlib.Order.Basic
import Mathlib.Order.Lattice
import Mathlib.Tactic.SplitIfs

/-!
# Maps whose values carry deadlines

A cell holds a value with an optional deadline and reads as empty from the
deadline on, although its content stays until an action replaces it.  The file
defines the actions on cells and maps of cells.  They see only the live part of a
cell, so expired cells may be purged at any time, and they do not depend on the
zero of the clock.
-/

namespace ExpiringMap

variable {κ ν τ : Type*}

abbrev Cell (ν τ : Type*) := Option (ν × Option τ)

/-- What can be done to a cell.  The last three depend on whether it is live. -/
inductive Action (ν τ : Type*)
  | write (value : ν) (deadline : Option τ)
  | clear
  | modify (update : Option ν → Option ν)
  | setDeadline (deadline : τ)
  | persist

/-- Actions whose outcome depends on the content of the cell. -/
def Action.Reads : Action ν τ → Prop
  | .write _ _ | .clear => False
  | .modify _ | .setDeadline _ | .persist => True

/-- An action on one key, or the removal of everything. -/
inductive Effect (κ ν τ : Type*)
  | act (key : κ) (action : Action ν τ)
  | flush

/-- What an effect does to one key. -/
def Effect.actionAt [DecidableEq κ] (key : κ) :
    Effect κ ν τ → Option (Action ν τ)
  | .act other action => if other = key then some action else none
  | .flush => some .clear

section Semantics

variable [LinearOrder τ]

/-- A deadline that has not passed. -/
def Alive (now : τ) (deadline : Option τ) : Prop :=
  ∀ limit ∈ deadline, now < limit

instance (now : τ) (deadline : Option τ) : Decidable (Alive now deadline) :=
  inferInstanceAs (Decidable (∀ limit ∈ deadline, now < limit))

/-- The content of a cell that has not expired. -/
def live (now : τ) (cell : Cell ν τ) : Cell ν τ :=
  cell.filter fun content => Alive now content.2

def Action.apply (now : τ) (cell : Cell ν τ) : Action ν τ → Cell ν τ
  | .write value deadline => some (value, deadline)
  | .clear => none
  | .modify update =>
      match live now cell with
      | some (value, deadline) =>
          match update (some value) with
          | some value => some (value, deadline)
          | none => cell
      | none =>
          match update none with
          | some value => some (value, none)
          | none => cell
  | .setDeadline deadline =>
      (live now cell).map fun content => (content.1, some deadline)
  | .persist => (live now cell).map fun content => (content.1, none)

def Effect.apply [DecidableEq κ] (now : τ) (space : κ → Cell ν τ)
    (effect : Effect κ ν τ) : κ → Cell ν τ :=
  fun key =>
    match effect.actionAt key with
    | some action => action.apply now (space key)
    | none => space key

/-- All effects of one instant, in order. -/
def applyAll [DecidableEq κ] (now : τ) (effects : List (Effect κ ν τ))
    (space : κ → Cell ν τ) : κ → Cell ν τ :=
  effects.foldl (Effect.apply now) space

@[simp]
theorem alive_none (now : τ) : Alive now none := by
  simp [Alive]

@[simp]
theorem alive_some (now limit : τ) : Alive now (some limit) ↔ now < limit := by
  simp [Alive]

theorem Alive.of_le {now later : τ} {deadline : Option τ} (inOrder : now ≤ later)
    (alive : Alive later deadline) : Alive now deadline :=
  fun limit member => inOrder.trans_lt (alive limit member)

@[simp]
theorem live_none (now : τ) : live now (none : Cell ν τ) = none := rfl

theorem live_some_of_alive {now : τ} {deadline : Option τ} (value : ν)
    (alive : Alive now deadline) :
    live now (some (value, deadline)) = some (value, deadline) := by
  simp [live, alive]

theorem live_some_of_not_alive {now : τ} {deadline : Option τ} (value : ν)
    (expired : ¬ Alive now deadline) :
    live now (some (value, deadline)) = none := by
  simp [live, expired]

@[simp]
theorem live_some_none (now : τ) (value : ν) :
    live now (some (value, (none : Option τ))) = some (value, none) :=
  live_some_of_alive value (alive_none now)

theorem live_some_some (now limit : τ) (value : ν) :
    live now (some (value, some limit)) =
      if now < limit then some (value, some limit) else none := by
  split_ifs with before
  · exact live_some_of_alive value ((alive_some now limit).mpr before)
  · exact live_some_of_not_alive value (mt (alive_some now limit).mp before)

theorem live_eq_some_iff {now : τ} {cell : Cell ν τ} {value : ν}
    {deadline : Option τ} :
    live now cell = some (value, deadline) ↔
      cell = some (value, deadline) ∧ Alive now deadline := by
  simp [live, Option.filter_eq_some_iff]

/-- What is live at a later instant was live before. -/
theorem live_live {now later : τ} (inOrder : now ≤ later) (cell : Cell ν τ) :
    live later (live now cell) = live later cell := by
  cases cell with
  | none => rfl
  | some content =>
      obtain ⟨value, deadline⟩ := content
      by_cases alive : Alive now deadline
      · rw [live_some_of_alive value alive]
      · have expired : ¬ Alive later deadline :=
          fun laterAlive => alive (laterAlive.of_le inOrder)
        rw [live_some_of_not_alive value alive,
          live_some_of_not_alive value expired, live_none]

/-- An action sees only the live part of its cell. -/
theorem Action.live_apply_live (action : Action ν τ) (now : τ) (cell : Cell ν τ) :
    live now (action.apply now (live now cell)) = live now (action.apply now cell) := by
  have again := live_live (le_refl now) cell
  cases action with
  | write value deadline => rfl
  | clear => rfl
  | modify update =>
      simp only [Action.apply, again]
      cases found : live now cell with
      | none => cases update none <;> simp [found]
      | some content =>
          rw [found] at again
          cases updated : update (some content.1) with
          | none => simp [updated, found, again]
          | some value => simp [updated]
  | setDeadline deadline => simp only [Action.apply, again]
  | persist => simp only [Action.apply, again]

/-- Setting a deadline right after a write is a write with that deadline. -/
theorem Action.setDeadline_write (now : τ) (cell : Cell ν τ) (value : ν)
    (deadline : τ) :
    (Action.setDeadline deadline).apply now
        ((Action.write value none).apply now cell) =
      (Action.write value (some deadline)).apply now cell := by
  simp [Action.apply, live]

variable [DecidableEq κ]

@[simp]
theorem Effect.apply_act_self (now : τ) (space : κ → Cell ν τ) (key : κ)
    (action : Action ν τ) :
    (Effect.act key action).apply now space key = action.apply now (space key) := by
  simp [Effect.apply, Effect.actionAt]

theorem Effect.apply_act_of_ne (now : τ) (space : κ → Cell ν τ) {key other : κ}
    (action : Action ν τ) (different : key ≠ other) :
    (Effect.act key action).apply now space other = space other := by
  simp [Effect.apply, Effect.actionAt, different]

@[simp]
theorem Effect.apply_flush (now : τ) (space : κ → Cell ν τ) (key : κ) :
    (Effect.flush : Effect κ ν τ).apply now space key = none :=
  rfl

theorem Effect.apply_setDeadline_write (now : τ) (space : κ → Cell ν τ) (key : κ)
    (value : ν) (deadline : τ) :
    (Effect.act key (.setDeadline deadline)).apply now
        ((Effect.act key (.write value none)).apply now space) =
      (Effect.act key (.write value (some deadline))).apply now space := by
  funext other
  by_cases same : key = other
  · subst other
    rw [Effect.apply_act_self, Effect.apply_act_self, Effect.apply_act_self]
    exact Action.setDeadline_write now (space key) value deadline
  · rw [Effect.apply_act_of_ne _ _ _ same, Effect.apply_act_of_ne _ _ _ same,
      Effect.apply_act_of_ne _ _ _ same]

@[simp]
theorem applyAll_nil (now : τ) (space : κ → Cell ν τ) :
    applyAll now [] space = space :=
  rfl

@[simp]
theorem applyAll_cons (now : τ) (effect : Effect κ ν τ)
    (effects : List (Effect κ ν τ)) (space : κ → Cell ν τ) :
    applyAll now (effect :: effects) space =
      applyAll now effects (effect.apply now space) :=
  rfl

theorem applyAll_append (now : τ) (first second : List (Effect κ ν τ))
    (space : κ → Cell ν τ) :
    applyAll now (first ++ second) space =
      applyAll now second (applyAll now first space) :=
  List.foldl_append

end Semantics

section Preservation

variable {holds : ν × Option τ → Prop}

/-- An action that gives a cell only contents of one kind, if it had such. -/
def Action.Keeps (holds : ν × Option τ → Prop) : Action ν τ → Prop
  | .write value deadline => holds (value, deadline)
  | .clear => True
  | .modify update =>
      (∀ value deadline, holds (value, deadline) →
        ∀ new ∈ update (some value), holds (new, deadline)) ∧
      ∀ new ∈ update none, holds (new, none)
  | .setDeadline deadline => ∀ content, holds content → holds (content.1, some deadline)
  | .persist => ∀ content, holds content → holds (content.1, none)

def Effect.Keeps (holds : κ → ν × Option τ → Prop) : Effect κ ν τ → Prop
  | .act key action => action.Keeps (holds key)
  | .flush => True

variable [LinearOrder τ] {now : τ} {cell : Cell ν τ}

theorem Action.Keeps.apply {action : Action ν τ} (keeps : action.Keeps holds)
    (held : ∀ content ∈ cell, holds content) :
    ∀ content ∈ action.apply now cell, holds content := by
  have lives : ∀ content ∈ live now cell, holds content :=
    fun content member => held content (live_eq_some_iff.mp member).1
  intro content member
  cases action with
  | write value deadline =>
      cases member
      exact keeps
  | clear => cases member
  | modify update =>
      rw [Action.apply] at member
      cases found : live now cell with
      | none =>
          rw [found] at member
          cases updated : update none with
          | none =>
              simp only [updated] at member
              exact held content member
          | some value =>
              simp only [updated] at member
              cases member
              exact keeps.2 value updated
      | some old =>
          rw [found] at member
          cases updated : update (some old.1) with
          | none =>
              simp only [updated] at member
              exact held content member
          | some value =>
              simp only [updated] at member
              cases member
              exact keeps.1 old.1 old.2 (lives old found) value updated
  | setDeadline deadline =>
      obtain ⟨old, found, rfl⟩ := Option.map_eq_some_iff.mp member
      exact keeps old (lives old found)
  | persist =>
      obtain ⟨old, found, rfl⟩ := Option.map_eq_some_iff.mp member
      exact keeps old (lives old found)

/-- Effects of one instant keep a kind of contents when each of them does. -/
theorem holds_applyAll [DecidableEq κ] {holds : κ → ν × Option τ → Prop}
    {effects : List (Effect κ ν τ)} {space : κ → Cell ν τ}
    (held : ∀ key, ∀ content ∈ space key, holds key content)
    (keeps : ∀ effect ∈ effects, effect.Keeps holds) (key : κ) :
    ∀ content ∈ applyAll now effects space key, holds key content := by
  induction effects generalizing space with
  | nil => exact held key
  | cons effect rest ih =>
      refine ih (fun other => ?_) fun later member =>
        keeps later (List.mem_cons_of_mem _ member)
      have keepsHere := keeps effect (List.mem_cons_self ..)
      cases effect with
      | act target action =>
          by_cases same : target = other
          · subst other
            rw [Effect.apply_act_self]
            exact keepsHere.apply (held target)
          · rw [Effect.apply_act_of_ne now space action same]
            exact held other
      | flush => intro content member; cases member

end Preservation

section Lasting

/-- The deadline that an action gives. -/
def Action.limit : Action ν τ → Option τ
  | .write _ deadline => deadline
  | .setDeadline deadline => some deadline
  | .clear | .modify _ | .persist => none

def Effect.limit : Effect κ ν τ → Option τ
  | .act _ action => action.limit
  | .flush => none

variable [LinearOrder τ] {now moment : τ} {cell : Cell ν τ}

/-- A cell that is empty or not over by a moment. -/
def Lasting (moment : τ) (cell : Cell ν τ) : Prop :=
  ∀ content ∈ cell, Alive moment content.2

theorem Lasting.live_eq (lasting : Lasting moment cell) : live moment cell = cell := by
  cases cell with
  | none => rfl
  | some content => exact live_some_of_alive content.1 (lasting content rfl)

/-- A deadline that is still to come keeps cells lasting. -/
theorem Effect.keeps_alive {effect : Effect κ ν τ} (ahead : Alive moment effect.limit) :
    effect.Keeps fun _ content => Alive moment content.2 := by
  cases effect with
  | act key action =>
      cases action with
      | write value deadline => exact ahead
      | clear => trivial
      | modify update =>
          exact ⟨fun _ _ alive _ _ => alive, fun _ _ => alive_none moment⟩
      | setDeadline deadline => exact fun _ _ => ahead
      | persist => exact fun _ _ => alive_none moment
  | flush => trivial

theorem lasting_applyAll [DecidableEq κ] {effects : List (Effect κ ν τ)}
    {space : κ → Cell ν τ} (lasting : ∀ key, Lasting moment (space key))
    (ahead : ∀ effect ∈ effects, Alive moment effect.limit) (key : κ) :
    Lasting moment (applyAll now effects space key) :=
  holds_applyAll lasting (fun effect member => Effect.keeps_alive (ahead effect member)) key

end Lasting

section Purging

variable [LinearOrder τ] {now : τ} {cell left other : Cell ν τ}

/-- What is left of a cell that may have been purged after it expired. -/
def Purged (now : τ) (cell left : Cell ν τ) : Prop :=
  left = cell ∨ (left = none ∧ live now cell = none)

theorem Purged.refl (now : τ) (cell : Cell ν τ) : Purged now cell cell :=
  Or.inl rfl

theorem Purged.of_dead (dead : live now cell = none) : Purged now cell none :=
  Or.inr ⟨rfl, dead⟩

theorem Purged.live_eq (purged : Purged now cell left) : live now left = live now cell := by
  rcases purged with rfl | ⟨rfl, dead⟩
  · rfl
  · exact dead.symm

theorem Purged.eq_of_live (purged : Purged now cell left) (same : live now cell = cell) :
    left = cell := by
  rcases purged with rfl | ⟨rfl, dead⟩
  · rfl
  · exact dead.symm.trans same

theorem Purged.trans (first : Purged now cell left) (second : Purged now left other) :
    Purged now cell other := by
  rcases second with rfl | ⟨rfl, dead⟩
  · exact first
  · exact Or.inr ⟨rfl, first.live_eq.symm.trans dead⟩

theorem Purged.mono {later : τ} (purged : Purged now cell left) (inOrder : now ≤ later) :
    Purged later cell left := by
  rcases purged with rfl | ⟨rfl, dead⟩
  · exact Or.inl rfl
  · refine Or.inr ⟨rfl, ?_⟩
    rw [← live_live inOrder, dead, live_none]

/-- Actions do not tell a purged cell from the cell. -/
theorem Purged.apply (purged : Purged now cell left) (action : Action ν τ) :
    Purged now (action.apply now cell) (action.apply now left) := by
  have same := purged.live_eq
  cases action with
  | write value deadline => exact Purged.refl now _
  | clear => exact Purged.refl now _
  | modify update =>
      simp only [Action.apply, same]
      cases live now cell with
      | none =>
          cases update none with
          | none => exact purged
          | some value => exact Purged.refl now _
      | some content =>
          cases updated : update (some content.1) with
          | none => simpa [updated] using purged
          | some value => simpa [updated] using Purged.refl now _
  | setDeadline deadline =>
      simp only [Action.apply, same]
      exact Purged.refl now _
  | persist =>
      simp only [Action.apply, same]
      exact Purged.refl now _

/-- One action on one key of a map that purges. -/
theorem Purged.act [DecidableEq κ] {space left : κ → Cell ν τ} {key : κ}
    {action : Action ν τ} (there : Purged now (action.apply now (space key)) (left key))
    (elsewhere : ∀ other, other ≠ key → Purged now (space other) (left other)) (other : κ) :
    Purged now ((Effect.act key action).apply now space other) (left other) := by
  by_cases same : other = key
  · subst other
    rwa [Effect.apply_act_self]
  · rw [Effect.apply_act_of_ne now space action (Ne.symm same)]
    exact elsewhere other same

theorem Purged.applyEffect [DecidableEq κ] {space leftSpace : κ → Cell ν τ}
    (purged : ∀ key, Purged now (space key) (leftSpace key)) (effect : Effect κ ν τ)
    (key : κ) : Purged now (effect.apply now space key) (effect.apply now leftSpace key) := by
  unfold Effect.apply
  cases effect.actionAt key with
  | none => exact purged key
  | some action => exact (purged key).apply action

end Purging

section ChangeOfClock

variable {σ : Type*}

/-- The same content with its deadline read on another clock. -/
def mapDeadline (clock : τ → σ) (cell : Cell ν τ) : Cell ν σ :=
  cell.map fun content => (content.1, content.2.map clock)

def Action.mapDeadline (clock : τ → σ) : Action ν τ → Action ν σ
  | .write value deadline => .write value (deadline.map clock)
  | .clear => .clear
  | .modify update => .modify update
  | .setDeadline deadline => .setDeadline (clock deadline)
  | .persist => .persist

def Effect.mapDeadline (clock : τ → σ) : Effect κ ν τ → Effect κ ν σ
  | .act key action => .act key (action.mapDeadline clock)
  | .flush => .flush

variable [LinearOrder τ] [LinearOrder σ] {clock : τ → σ}

theorem alive_map (mono : StrictMono clock) (now : τ) (deadline : Option τ) :
    Alive (clock now) (deadline.map clock) ↔ Alive now deadline := by
  cases deadline with
  | none => simp
  | some limit => simp [mono.lt_iff_lt]

theorem live_mapDeadline (mono : StrictMono clock) (now : τ) (cell : Cell ν τ) :
    live (clock now) (mapDeadline clock cell) = mapDeadline clock (live now cell) := by
  cases cell with
  | none => rfl
  | some content =>
      obtain ⟨value, deadline⟩ := content
      by_cases alive : Alive now deadline
      · rw [live_some_of_alive value alive]
        exact live_some_of_alive value ((alive_map mono now deadline).mpr alive)
      · rw [live_some_of_not_alive value alive]
        exact live_some_of_not_alive value
          (mt (alive_map mono now deadline).mp alive)

theorem Action.apply_mapDeadline (mono : StrictMono clock) (now : τ)
    (cell : Cell ν τ) (action : Action ν τ) :
    (action.mapDeadline clock).apply (clock now) (ExpiringMap.mapDeadline clock cell) =
      ExpiringMap.mapDeadline clock (action.apply now cell) := by
  have lives := live_mapDeadline mono now cell
  cases action with
  | write value deadline => rfl
  | clear => rfl
  | modify update =>
      simp only [Action.mapDeadline, Action.apply, lives]
      cases live now cell with
      | none =>
          simp only [ExpiringMap.mapDeadline, Option.map_none]
          cases update none <;> rfl
      | some content =>
          simp only [ExpiringMap.mapDeadline, Option.map_some]
          cases update (some content.1) <;> rfl
  | setDeadline deadline =>
      simp only [Action.mapDeadline, Action.apply, lives]
      cases live now cell <;> rfl
  | persist =>
      simp only [Action.mapDeadline, Action.apply, lives]
      cases live now cell <;> rfl

/-- Effects commute with a change of clock. -/
theorem Effect.apply_mapDeadline [DecidableEq κ] (mono : StrictMono clock) (now : τ)
    (space : κ → Cell ν τ) (effect : Effect κ ν τ) :
    (effect.mapDeadline clock).apply (clock now)
        (fun key => ExpiringMap.mapDeadline clock (space key)) =
      fun key => ExpiringMap.mapDeadline clock (effect.apply now space key) := by
  funext key
  cases effect with
  | act other action =>
      by_cases same : other = key
      · subst other
        simp only [Effect.mapDeadline, Effect.apply_act_self]
        exact action.apply_mapDeadline mono now (space key)
      · simp only [Effect.mapDeadline]
        rw [Effect.apply_act_of_ne _ _ _ same, Effect.apply_act_of_ne _ _ _ same]
  | flush => rfl

end ChangeOfClock

end ExpiringMap
