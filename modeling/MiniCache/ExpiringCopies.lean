import MiniCache.ExpiringMap
import Mathlib.Data.List.Forall2

/-!
# Copies of an expiring map

Two maps that receive the same actions at different instants and with deadlines
that correspond.  When the two find a cell live together whenever an action
depends on it, their contents track each other.  A copy that is read at one moment
only has more freedom: what is over by that moment does not matter to it.
-/

namespace ExpiringMap

variable {κ ν τ : Type*}

section Tracking

variable (near : τ → τ → Prop)

/-- Equal values, with deadlines that correspond. -/
def Tracks (cell copy : Cell ν τ) : Prop :=
  Option.Rel (fun first second =>
    first.1 = second.1 ∧ Option.Rel near first.2 second.2) cell copy

/-- The same action, up to corresponding deadlines. -/
inductive ActionTracks : Action ν τ → Action ν τ → Prop
  | write (value : ν) {deadline copyDeadline : Option τ} :
      Option.Rel near deadline copyDeadline →
        ActionTracks (.write value deadline) (.write value copyDeadline)
  | clear : ActionTracks .clear .clear
  | modify (update : Option ν → Option ν) :
      ActionTracks (.modify update) (.modify update)
  | setDeadline {deadline copyDeadline : τ} : near deadline copyDeadline →
      ActionTracks (.setDeadline deadline) (.setDeadline copyDeadline)
  | persist : ActionTracks .persist .persist

/-- The same effect, up to corresponding deadlines. -/
inductive EffectTracks : Effect κ ν τ → Effect κ ν τ → Prop
  | act (key : κ) {action copyAction : Action ν τ} :
      ActionTracks near action copyAction →
        EffectTracks (.act key action) (.act key copyAction)
  | flush : EffectTracks .flush .flush

variable {near}

theorem tracks_none : Tracks near (none : Cell ν τ) none :=
  Option.Rel.none

/-- Cells that track each other do so when their deadlines are read on other clocks. -/
theorem Tracks.mapDeadline {σ : Type*} {clock copyClock : τ → σ} {close : σ → σ → Prop}
    {cell copy : Cell ν τ} (tracks : Tracks near cell copy)
    (kept : ∀ {first second}, near first second → close (clock first) (copyClock second)) :
    Tracks close (mapDeadline clock cell) (ExpiringMap.mapDeadline copyClock copy) := by
  cases tracks with
  | none => exact Option.Rel.none
  | @some content copyContent related =>
      obtain ⟨value, deadline⟩ := content
      obtain ⟨copyValue, copyDeadline⟩ := copyContent
      obtain ⟨rfl, deadlines⟩ := related
      refine Option.Rel.some ⟨rfl, ?_⟩
      cases deadlines with
      | none => exact Option.Rel.none
      | some related => exact Option.Rel.some (kept related)

variable [LinearOrder τ]

/-- One action on two cells that are live together when the action reads them. -/
theorem Tracks.apply {cell copy : Cell ν τ} {action copyAction : Action ν τ}
    {now copyNow : τ} (tracks : Tracks near cell copy)
    (same : ActionTracks near action copyAction)
    (agree : action.Reads →
      ((live now cell).isSome ↔ (live copyNow copy).isSome)) :
    Tracks near (action.apply now cell) (copyAction.apply copyNow copy) := by
  -- The live parts correspond as soon as they are live together.
  have liveTracks (together : (live now cell).isSome ↔ (live copyNow copy).isSome) :
      Tracks near (live now cell) (live copyNow copy) := by
    cases tracks with
    | none => exact tracks_none
    | @some content copyContent related =>
        by_cases alive : Alive now content.2
        · have copyAlive : Alive copyNow copyContent.2 := by
            by_contra expired
            rw [live_some_of_alive _ alive, live_some_of_not_alive _ expired]
              at together
            simp at together
          rw [live_some_of_alive _ alive, live_some_of_alive _ copyAlive]
          exact Option.Rel.some related
        · have copyExpired : ¬ Alive copyNow copyContent.2 := by
            intro copyAlive
            rw [live_some_of_not_alive _ alive, live_some_of_alive _ copyAlive]
              at together
            simp at together
          rw [live_some_of_not_alive _ alive,
            live_some_of_not_alive _ copyExpired]
          exact tracks_none
  cases same with
  | write value deadlines => exact Option.Rel.some ⟨rfl, deadlines⟩
  | clear => exact tracks_none
  | modify update =>
      have related := liveTracks (agree trivial)
      simp only [Action.apply]
      cases found : live now cell with
      | none =>
          cases copyFound : live copyNow copy with
          | none =>
              cases update none with
              | none => exact tracks
              | some value => exact Option.Rel.some ⟨rfl, Option.Rel.none⟩
          | some copyContent => rw [found, copyFound] at related; cases related
      | some content =>
          cases copyFound : live copyNow copy with
          | none => rw [found, copyFound] at related; cases related
          | some copyContent =>
              rw [found, copyFound] at related
              obtain ⟨value, deadline⟩ := content
              obtain ⟨copyValue, copyDeadline⟩ := copyContent
              cases related with
              | some related =>
                  obtain ⟨rfl, deadlines⟩ := related
                  cases updated : update (some value) with
                  | none => simpa [updated] using tracks
                  | some newValue =>
                      simp only [updated]
                      exact Option.Rel.some ⟨rfl, deadlines⟩
  | setDeadline deadlines =>
      have related := liveTracks (agree trivial)
      simp only [Action.apply]
      generalize live now cell = found, live copyNow copy = copyFound at related
      cases related with
      | none => exact tracks_none
      | some related =>
          exact Option.Rel.some ⟨related.1, Option.Rel.some deadlines⟩
  | persist =>
      have related := liveTracks (agree trivial)
      simp only [Action.apply]
      generalize live now cell = found, live copyNow copy = copyFound at related
      cases related with
      | none => exact tracks_none
      | some related => exact Option.Rel.some ⟨related.1, Option.Rel.none⟩

variable [DecidableEq κ]

/-- One effect on two maps that agree on the key it reads. -/
theorem tracks_applyEffect {space copy : κ → Cell ν τ}
    {effect copyEffect : Effect κ ν τ} {now copyNow : τ}
    (tracks : ∀ key, Tracks near (space key) (copy key))
    (same : EffectTracks near effect copyEffect)
    (agree : ∀ key action, effect = .act key action → action.Reads →
      ((live now (space key)).isSome ↔ (live copyNow (copy key)).isSome)) :
    ∀ key, Tracks near (effect.apply now space key)
      (copyEffect.apply copyNow copy key) := by
  intro key
  cases same with
  | @act other action copyAction actions =>
      by_cases atKey : other = key
      · subst other
        rw [Effect.apply_act_self, Effect.apply_act_self]
        exact (tracks key).apply actions (agree key action rfl)
      · rw [Effect.apply_act_of_ne now space action atKey,
          Effect.apply_act_of_ne copyNow copy copyAction atKey]
        exact tracks key
  | flush => exact tracks_none

end Tracking

section Lone

/-- Effects whose outcome depends on the map. -/
def Effect.Reads : Effect κ ν τ → Prop
  | .act _ action => action.Reads
  | .flush => False

/-- The effects of one command: only a lone one reads the map. -/
def Lone (effects : List (Effect κ ν τ)) : Prop :=
  effects.length ≤ 1 ∨ ∀ effect ∈ effects, ¬ effect.Reads

variable {near : τ → τ → Prop}

theorem EffectTracks.reads_iff {effect copyEffect : Effect κ ν τ}
    (tracks : EffectTracks near effect copyEffect) : effect.Reads ↔ copyEffect.Reads := by
  cases tracks with
  | act key actions => cases actions <;> rfl
  | flush => rfl

theorem Lone.of_tracks {effects copyEffects : List (Effect κ ν τ)} (lone : Lone copyEffects)
    (tracks : List.Forall₂ (EffectTracks near) effects copyEffects) : Lone effects := by
  rcases lone with short | blind
  · exact Or.inl (tracks.length_eq ▸ short)
  · right
    induction tracks with
    | nil => intro effect member; cases member
    | cons first rest ih =>
        intro effect member
        rcases List.mem_cons.mp member with rfl | inRest
        · exact fun reads => blind _ (List.mem_cons_self ..) (first.reads_iff.mp reads)
        · exact ih (fun other inside => blind other (List.mem_cons_of_mem _ inside)) effect inRest

end Lone

section Trailing

variable [LinearOrder τ] {near : τ → τ → Prop} {now : τ} {cell copy : Cell ν τ}

/-- A copy that tracks its cell, or that is over as the cell is. -/
def Trails (near : τ → τ → Prop) (now : τ) (cell copy : Cell ν τ) : Prop :=
  Tracks near cell copy ∨ (live now cell = none ∧ live now copy = none)

/-- An action that a cell and its copy take alike: both are found live, or neither
is, or the action leaves both over. -/
def Action.Agrees (now : τ) (found copyFound : Bool) : Action ν τ → Prop
  | .write _ _ | .clear => True
  | .modify _ | .persist => found = copyFound
  | .setDeadline deadline => found = copyFound ∨ deadline ≤ now

def Effect.Agrees (now : τ) (found copyFound : κ → Bool) : Effect κ ν τ → Prop
  | .act key action => action.Agrees now (found key) (copyFound key)
  | .flush => True

instance (now : τ) (found copyFound : Bool) (action : Action ν τ) :
    Decidable (action.Agrees now found copyFound) := by
  cases action <;> unfold Action.Agrees <;> infer_instance

instance (now : τ) (found copyFound : κ → Bool) (effect : Effect κ ν τ) :
    Decidable (effect.Agrees now found copyFound) := by
  cases effect <;> unfold Effect.Agrees <;> infer_instance

theorem Trails.mono {later : τ} (trails : Trails near now cell copy) (inOrder : now ≤ later) :
    Trails near later cell copy := by
  rcases trails with tracks | ⟨dead, copyDead⟩
  · exact Or.inl tracks
  · right
    rw [← live_live inOrder cell, ← live_live inOrder copy, dead, copyDead]
    exact ⟨rfl, rfl⟩

omit [LinearOrder τ] in
theorem rel_refl (refl : ∀ limit, near limit limit) (deadline : Option τ) :
    Option.Rel near deadline deadline := by
  cases deadline with
  | none => exact Option.Rel.none
  | some limit => exact Option.Rel.some (refl limit)

omit [LinearOrder τ] in
theorem actionTracks_refl (refl : ∀ limit, near limit limit) (action : Action ν τ) :
    ActionTracks near action action := by
  cases action with
  | write value deadline => exact .write value (rel_refl refl deadline)
  | clear => exact .clear
  | modify update => exact .modify update
  | setDeadline deadline => exact .setDeadline (refl deadline)
  | persist => exact .persist

theorem live_map_eq_none {deadline : τ} (past : deadline ≤ now) (cell : Cell ν τ) :
    live now (cell.map fun content => (content.1, some deadline)) = none := by
  cases cell with
  | none => rfl
  | some content =>
      exact live_some_of_not_alive _ (mt (alive_some _ _).mp (not_lt_of_ge past))

/-- One action on both at one instant. -/
theorem Trails.apply {action : Action ν τ} (refl : ∀ limit, near limit limit)
    (trails : Trails near now cell copy)
    (agrees : action.Agrees now (live now cell).isSome (live now copy).isSome) :
    Trails near now (action.apply now cell) (action.apply now copy) := by
  have together (same : (live now cell).isSome = (live now copy).isSome)
      (tracks : Tracks near cell copy) :
      Trails near now (action.apply now cell) (action.apply now copy) :=
    Or.inl (tracks.apply (actionTracks_refl refl action) fun _ => by rw [same])
  cases action with
  | write value deadline => exact Or.inl (Option.Rel.some ⟨rfl, rel_refl refl deadline⟩)
  | clear => exact Or.inl tracks_none
  | modify update =>
      rcases trails with tracks | ⟨dead, copyDead⟩
      · exact together agrees tracks
      · simp only [Action.apply, dead, copyDead]
        cases update none with
        | none => exact Or.inr ⟨dead, copyDead⟩
        | some value => exact Or.inl (Option.Rel.some ⟨rfl, Option.Rel.none⟩)
  | setDeadline deadline =>
      rcases trails with tracks | ⟨dead, copyDead⟩
      · rcases agrees with same | past
        · exact together same tracks
        · exact Or.inr ⟨live_map_eq_none past _, live_map_eq_none past _⟩
      · simp only [Action.apply, dead, copyDead]
        exact Or.inl tracks_none
  | persist =>
      rcases trails with tracks | ⟨dead, copyDead⟩
      · exact together agrees tracks
      · simp only [Action.apply, dead, copyDead]
        exact Or.inl tracks_none

theorem trails_applyEffect [DecidableEq κ] {space copies : κ → Cell ν τ}
    {effect : Effect κ ν τ} (refl : ∀ limit, near limit limit)
    (trails : ∀ key, Trails near now (space key) (copies key))
    (agrees : effect.Agrees now (fun key => (live now (space key)).isSome)
      fun key => (live now (copies key)).isSome) (key : κ) :
    Trails near now (effect.apply now space key) (effect.apply now copies key) := by
  cases effect with
  | act other action =>
      by_cases same : other = key
      · subst other
        rw [Effect.apply_act_self, Effect.apply_act_self]
        exact (trails key).apply refl agrees
      · rw [Effect.apply_act_of_ne now space action same,
          Effect.apply_act_of_ne now copies action same]
        exact trails key
  | flush => exact Or.inl tracks_none

theorem Effect.agrees_of_not_reads {effect : Effect κ ν τ} (blind : ¬ effect.Reads) (now : τ)
    (found copyFound : κ → Bool) : effect.Agrees now found copyFound := by
  cases effect with
  | act key action => cases action <;> first | trivial | exact absurd trivial blind
  | flush => trivial

/-- The effects of one command on both at one instant. -/
theorem trails_applyAll [DecidableEq κ] {space copies : κ → Cell ν τ}
    {effects : List (Effect κ ν τ)} (refl : ∀ limit, near limit limit) (lone : Lone effects)
    (trails : ∀ key, Trails near now (space key) (copies key))
    (agrees : ∀ effect ∈ effects, effect.Agrees now (fun key => (live now (space key)).isSome)
      fun key => (live now (copies key)).isSome) (key : κ) :
    Trails near now (applyAll now effects space key) (applyAll now effects copies key) := by
  rcases lone with short | blind
  · cases effects with
    | nil => exact trails key
    | cons effect rest =>
        cases rest with
        | nil =>
            exact trails_applyEffect refl trails (agrees effect (List.mem_cons_self ..)) key
        | cons => simp at short
  · clear agrees
    induction effects generalizing space copies with
    | nil => exact trails key
    | cons effect rest ih =>
        refine ih (fun key => ?_) fun later member => blind later (List.mem_cons_of_mem _ member)
        have blindHere := blind effect (List.mem_cons_self ..)
        exact trails_applyEffect refl trails (Effect.agrees_of_not_reads blindHere now _ _) key

/-- What is live is live, with the same value, in a copy whose deadlines are later. -/
theorem Trails.live_of_le {value : ν} {deadline : Option τ}
    (later : ∀ {limit copyLimit}, near limit copyLimit → limit ≤ copyLimit)
    (trails : Trails near now cell copy) (alive : live now cell = some (value, deadline)) :
    ∃ copyDeadline, live now copy = some (value, copyDeadline) := by
  obtain ⟨present, lasting⟩ := live_eq_some_iff.mp alive
  subst present
  rcases trails with tracks | ⟨dead, -⟩
  · cases tracks with
    | @some _ copyContent related =>
        obtain ⟨copyValue, copyDeadline⟩ := copyContent
        obtain ⟨rfl, deadlines⟩ := related
        refine ⟨copyDeadline, live_some_of_alive _ ?_⟩
        intro copyLimit isLimit
        cases isLimit
        cases deadlines with
        | some close => exact (lasting _ rfl).trans_le (later close)
  · rw [dead] at alive
    cases alive

end Trailing

section Following

/-- The deadline that a copy has been told for a cell, after an action that found
the cell live or not. -/
def Action.note (found : Bool) (noted : Option τ) : Action ν τ → Option τ
  | .write _ deadline => deadline
  | .clear | .persist => none
  | .modify update =>
      if found then noted else if (update none).isSome then none else noted
  | .setDeadline deadline => if found then some deadline else none

def Effect.note [DecidableEq κ] (found : κ → Bool) (noted : κ → Option τ)
    (effect : Effect κ ν τ) : κ → Option τ :=
  fun key =>
    match effect.actionAt key with
    | some action => action.note (found key) (noted key)
    | none => noted key

variable [LinearOrder τ]

/-- An action of which a copy read at one moment makes the same as the original:
the cell is live for both, or for neither, or the action leaves nothing live at
that moment anyhow. -/
def Action.Settled (moment : τ) (found : Bool) (noted : Option τ) : Action ν τ → Prop
  | .write _ _ | .clear => True
  | .modify update => ∀ limit ∈ noted,
      (found = true ↔ moment < limit) ∨ (limit ≤ moment ∧ update none = none)
  | .setDeadline deadline => ∀ limit ∈ noted,
      (found = true ↔ moment < limit) ∨ deadline ≤ moment
  | .persist => ∀ limit ∈ noted, (found = true ↔ moment < limit)

def Effect.Settled (moment : τ) (found : κ → Bool) (noted : κ → Option τ) :
    Effect κ ν τ → Prop
  | .act key action => action.Settled moment (found key) (noted key)
  | .flush => True

instance [DecidableEq ν] (moment : τ) (found : Bool) (noted : Option τ) (action : Action ν τ) :
    Decidable (action.Settled moment found noted) := by
  cases action <;> unfold Action.Settled <;> infer_instance

instance [DecidableEq ν] (moment : τ) (found : κ → Bool) (noted : κ → Option τ)
    (effect : Effect κ ν τ) : Decidable (effect.Settled moment found noted) := by
  cases effect <;> unfold Effect.Settled <;> infer_instance

/-- A copy that reads, at one moment, as the cell with the deadline it has been
told, which is near the deadline of the cell. -/
structure Follows (near : τ → τ → Prop) (moment : τ) (cell : Cell ν τ)
    (noted : Option τ) (copy : Cell ν τ) : Prop where
  told : ∀ content ∈ cell, Option.Rel near content.2 noted
  same : live moment copy = live moment (cell.map fun content => (content.1, noted))

variable {near : τ → τ → Prop} {moment now : τ} {cell copy : Cell ν τ} {noted : Option τ}

theorem follows_of_dead (noted : Option τ) (dead : live moment copy = none) :
    Follows near moment none noted copy :=
  ⟨(fun _ member => by cases member), dead⟩

theorem follows_some {value : ν} {deadline : Option τ} (told : Option.Rel near deadline noted) :
    Follows near moment (some (value, deadline)) noted (some (value, noted)) :=
  ⟨fun _ member => by cases member; exact told, rfl⟩

/-- A cell is empty, or persistent, or has a deadline. -/
theorem Follows.elim (follows : Follows near moment cell noted copy) :
    (cell = none ∧ live moment copy = none) ∨
      (∃ value, cell = some (value, none) ∧ noted = none ∧
        live moment copy = some (value, none)) ∨
      (∃ value deadline limit, cell = some (value, some deadline) ∧ noted = some limit ∧
        near deadline limit ∧
        live moment copy = if moment < limit then some (value, some limit) else none) := by
  obtain ⟨told, same⟩ := follows
  cases cell with
  | none => exact Or.inl ⟨rfl, same⟩
  | some content =>
      obtain ⟨value, deadline⟩ := content
      right
      have related := told _ rfl
      cases related with
      | none => exact Or.inl ⟨value, rfl, rfl, same.trans (live_some_none moment value)⟩
      | @some deadline limit close =>
          exact Or.inr ⟨value, deadline, limit, rfl, rfl, close,
            same.trans (live_some_some moment limit value)⟩

/-- When the action finds the cell live or dead for both, or the difference does
not matter, the copy follows the cell. -/
theorem Follows.apply {action copyAction : Action ν τ}
    (follows : Follows near moment cell noted copy)
    (tracks : ActionTracks near action copyAction)
    (settled : copyAction.Settled moment (live now cell).isSome noted) :
    Follows near moment (action.apply now cell)
      (copyAction.note (live now cell).isSome noted) (copyAction.apply moment copy) := by
  cases tracks with
  | write value deadlines => exact follows_some deadlines
  | clear => exact follows_of_dead none rfl
  | modify update =>
      rcases follows.elim with ⟨rfl, dead⟩ | ⟨value, rfl, rfl, kept⟩ |
        ⟨value, deadline, limit, rfl, rfl, close, kept⟩
      · simp only [Action.apply, Action.note, dead, live_none, Option.isSome_none,
          Bool.false_eq_true, if_false]
        cases update none with
        | none => exact follows
        | some fresh => exact follows_some Option.Rel.none
      · simp only [Action.apply, Action.note, kept, live_some_none, Option.isSome_some, if_true]
        cases updated : update (some value) with
        | none => simpa [updated] using follows
        | some fresh => simpa [updated] using follows_some Option.Rel.none
      · have decision := settled limit rfl
        rw [live_some_some] at decision
        simp only [Action.apply, Action.note, kept, live_some_some]
        by_cases alive : now < deadline
        · rw [if_pos alive] at decision ⊢
          simp only [Option.isSome_some, if_true, true_iff] at decision ⊢
          by_cases copyAlive : moment < limit
          · rw [if_pos copyAlive]
            cases updated : update (some value) with
            | none => simpa [updated] using follows
            | some fresh => simpa [updated] using follows_some (Option.Rel.some close)
          · -- The copy finds nothing, and can put nothing in its place.
            have fails : update none = none := (decision.resolve_left copyAlive).2
            rw [if_neg copyAlive] at kept ⊢
            simp only [fails]
            cases updated : update (some value) with
            | none => exact follows
            | some fresh =>
                refine ⟨fun _ member => by cases member; exact Option.Rel.some close, ?_⟩
                rw [kept, Option.map_some, live_some_some, if_neg copyAlive]
        · rw [if_neg alive] at decision ⊢
          simp only [Option.isSome_none, Bool.false_eq_true, if_false, false_iff] at decision ⊢
          have copyDead : ¬ moment < limit := by
            rcases decision with later | ⟨past, -⟩
            · exact later
            · exact not_lt_of_ge past
          rw [if_neg copyDead]
          cases update none with
          | none => exact follows
          | some fresh => exact follows_some Option.Rel.none
  | setDeadline deadlines =>
      rcases follows.elim with ⟨rfl, dead⟩ | ⟨value, rfl, rfl, kept⟩ |
        ⟨value, deadline, limit, rfl, rfl, close, kept⟩
      · simp only [Action.apply, dead]
        exact follows_of_dead _ rfl
      · simp only [Action.apply, kept, live_some_none]
        exact follows_some (Option.Rel.some deadlines)
      · have decision := settled limit rfl
        rw [live_some_some] at decision
        simp only [Action.apply, Action.note, kept, live_some_some]
        by_cases alive : now < deadline
        · rw [if_pos alive] at decision ⊢
          simp only [Option.isSome_some, true_iff] at decision
          by_cases copyAlive : moment < limit
          · rw [if_pos copyAlive]
            exact follows_some (Option.Rel.some deadlines)
          · -- The copy finds nothing; what the original keeps is over by then.
            refine ⟨fun _ member => by cases member; exact Option.Rel.some deadlines, ?_⟩
            rw [if_neg copyAlive]
            exact (live_some_of_not_alive _ (mt (alive_some _ _).mp
              (not_lt_of_ge (decision.resolve_left copyAlive)))).symm
        · rw [if_neg alive] at decision ⊢
          simp only [Option.isSome_none, Bool.false_eq_true, false_iff] at decision
          by_cases copyAlive : moment < limit
          · -- The copy revives the cell with a deadline that is over.
            refine follows_of_dead _ ?_
            rw [if_pos copyAlive]
            exact live_some_of_not_alive _ (mt (alive_some _ _).mp
              (not_lt_of_ge (decision.resolve_left (not_not_intro copyAlive))))
          · rw [if_neg copyAlive]
            exact follows_of_dead _ rfl
  | persist =>
      rcases follows.elim with ⟨rfl, dead⟩ | ⟨value, rfl, rfl, kept⟩ |
        ⟨value, deadline, limit, rfl, rfl, close, kept⟩
      · simp only [Action.apply, dead]
        exact follows_of_dead _ rfl
      · simp only [Action.apply, kept, live_some_none]
        exact follows_some Option.Rel.none
      · have decision := settled limit rfl
        rw [live_some_some] at decision
        simp only [Action.apply, kept, live_some_some]
        by_cases alive : now < deadline
        · rw [if_pos alive] at decision ⊢
          rw [if_pos (decision.mp rfl)]
          exact follows_some Option.Rel.none
        · rw [if_neg alive] at decision ⊢
          rw [if_neg fun copyAlive => absurd (decision.mpr copyAlive) Bool.false_ne_true]
          exact follows_of_dead _ rfl

/-- The same for an effect on a whole map. -/
theorem follows_applyEffect [DecidableEq κ] {space copies : κ → Cell ν τ}
    {notes : κ → Option τ} {effect copyEffect : Effect κ ν τ}
    (follows : ∀ key, Follows near moment (space key) (notes key) (copies key))
    (tracks : EffectTracks near effect copyEffect)
    (settled : copyEffect.Settled moment (fun key => (live now (space key)).isSome) notes)
    (key : κ) :
    Follows near moment (effect.apply now space key)
      (copyEffect.note (fun key => (live now (space key)).isSome) notes key)
      (copyEffect.apply moment copies key) := by
  cases tracks with
  | @act other action copyAction actions =>
      by_cases same : other = key
      · subst other
        simp only [Effect.apply, Effect.note, Effect.actionAt, if_true]
        exact (follows key).apply actions settled
      · simp only [Effect.apply, Effect.note, Effect.actionAt, if_neg same]
        exact follows key
  | flush => exact follows_of_dead none rfl

theorem Effect.settled_of_not_reads {effect : Effect κ ν τ} (blind : ¬ effect.Reads)
    (moment : τ) (found : κ → Bool) (notes : κ → Option τ) :
    effect.Settled moment found notes := by
  cases effect with
  | act key action => cases action <;> first | trivial | exact absurd trivial blind
  | flush => trivial

omit [LinearOrder τ] in
theorem Effect.note_congr [DecidableEq κ] {effect : Effect κ ν τ} (blind : ¬ effect.Reads)
    (found other : κ → Bool) (notes : κ → Option τ) :
    effect.note found notes = effect.note other notes := by
  funext key
  cases effect with
  | act other action =>
      simp only [Effect.note, Effect.actionAt]
      split_ifs
      · cases action <;> first | rfl | exact absurd trivial blind
      · rfl
  | flush => rfl

/-- What a copy has been told after several effects of one instant. -/
def noteAll [DecidableEq κ] (found : κ → Bool) (effects : List (Effect κ ν τ))
    (notes : κ → Option τ) : κ → Option τ :=
  effects.foldl (fun notes effect => effect.note found notes) notes

omit [LinearOrder τ] in
/-- A copy is told deadlines that it knew or that are given. -/
theorem Action.note_or (found : Bool) (noted : Option τ) (action : Action ν τ) :
    ∀ limit ∈ action.note found noted, limit ∈ noted ∨ limit ∈ action.limit := by
  intro limit member
  cases action with
  | write value deadline => exact Or.inr member
  | clear | persist => cases member
  | modify update =>
      rw [Action.note] at member
      split_ifs at member
      · exact Or.inl member
      · cases member
      · exact Or.inl member
  | setDeadline deadline =>
      rw [Action.note] at member
      split_ifs at member
      · exact Or.inr member
      · cases member

omit [LinearOrder τ] in
theorem noteAll_or [DecidableEq κ] {effects : List (Effect κ ν τ)} {found : κ → Bool}
    {notes : κ → Option τ} {key : κ} {limit : τ}
    (told : limit ∈ noteAll found effects notes key) :
    limit ∈ notes key ∨ ∃ effect ∈ effects, limit ∈ effect.limit := by
  induction effects generalizing notes with
  | nil => exact Or.inl told
  | cons effect rest ih =>
      rcases ih told with before | ⟨later, member, given⟩
      · cases effect with
        | act other action =>
            simp only [Effect.note, Effect.actionAt] at before
            split_ifs at before
            · rcases action.note_or _ _ limit before with known | given
              · exact Or.inl known
              · exact Or.inr ⟨_, List.mem_cons_self .., given⟩
            · exact Or.inl before
        | flush => cases before
      · exact Or.inr ⟨later, List.mem_cons_of_mem _ member, given⟩

theorem follows_applyAll [DecidableEq κ] {effects copyEffects : List (Effect κ ν τ)}
    {space copies : κ → Cell ν τ} {notes : κ → Option τ} {found : κ → Bool}
    (tracks : List.Forall₂ (EffectTracks near) effects copyEffects)
    (lone : Lone copyEffects)
    (finds : ∀ key, found key = (live now (space key)).isSome)
    (settled : ∀ effect ∈ copyEffects, effect.Settled moment found notes)
    (follows : ∀ key, Follows near moment (space key) (notes key) (copies key)) (key : κ) :
    Follows near moment (applyAll now effects space key)
      (noteAll found copyEffects notes key) (applyAll moment copyEffects copies key) := by
  obtain rfl : found = fun key => (live now (space key)).isSome := funext finds
  rcases lone with short | blind
  · cases tracks with
    | nil => exact follows key
    | cons first rest =>
        cases rest with
        | nil => exact follows_applyEffect follows first (settled _ (List.mem_cons_self ..)) key
        | cons => simp at short
  · clear settled finds
    generalize (fun key => (live now (space key)).isSome) = found
    induction tracks generalizing space copies notes with
    | nil => exact follows key
    | @cons effect copyEffect effects copyEffects first rest ih =>
        have blindHere := blind copyEffect (List.mem_cons_self ..)
        refine ih ?_ (fun effect member => blind effect (List.mem_cons_of_mem _ member))
        intro key
        dsimp only
        rw [Effect.note_congr blindHere found fun key => (live now (space key)).isSome]
        exact follows_applyEffect follows first
          (Effect.settled_of_not_reads blindHere moment _ notes) key

end Following

end ExpiringMap
