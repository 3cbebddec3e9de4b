import Mathlib.Data.List.Basic

/-!
# Parties that share a machine

A machine holds something at every key and takes commands, each of which names some keys.  A
command sees and changes what is held at the keys that it names and nothing else.  In a run
that several parties share, a party whose keys the others do not name gets the replies that
it gets when it runs alone.
-/

namespace Isolation

variable {τ σ κ ν γ β ι : Type*}

/-- Every command sees and changes only what it names; what is equal stays equal as time
passes. -/
structure Confined (step : τ → γ → σ → β × σ) (view : τ → σ → κ → ν) (names : γ → κ → Prop)
    (valid : σ → Prop) (allowed : γ → Prop) (before : τ → τ → Prop) : Prop where
  stays : ∀ {time command state}, allowed command → valid state →
    valid (step time command state).2
  reply : ∀ {time command state other}, allowed command → valid state → valid other →
    (∀ key, names command key → view time state key = view time other key) →
      (step time command state).1 = (step time command other).1
  effect : ∀ {time command state other}, allowed command → valid state → valid other →
    (∀ key, names command key → view time state key = view time other key) →
      ∀ key, names command key →
        view time (step time command state).2 key = view time (step time command other).2 key
  frame : ∀ {time command state}, allowed command → valid state → ∀ key, ¬ names command key →
    view time (step time command state).2 key = view time state key
  later : ∀ {now later state other key}, before now later → view now state key =
    view now other key → view later state key = view later other key

/-- The replies to a run. -/
def replies (step : τ → γ → σ → β × σ) : σ → List (τ × γ) → List β
  | _, [] => []
  | state, (time, command) :: rest =>
      let done := step time command state
      done.1 :: replies step done.2 rest

/-- The replies to one party in a run that it shares. -/
def repliesTo [DecidableEq ι] (step : τ → γ → σ → β × σ) (who : ι) :
    σ → List (ι × τ × γ) → List β
  | _, [] => []
  | state, (party, time, command) :: rest =>
      let done := step time command state
      if party = who then done.1 :: repliesTo step who done.2 rest
      else repliesTo step who done.2 rest

/-- What one party does in a run. -/
def share [DecidableEq ι] (who : ι) (run : List (ι × τ × γ)) : List (τ × γ) :=
  (run.filter fun event => event.1 = who).map Prod.snd

section Runs

variable [DecidableEq ι] {step : τ → γ → σ → β × σ} {view : τ → σ → κ → ν}
  {names : γ → κ → Prop} {valid : σ → Prop} {allowed : γ → Prop} {before : τ → τ → Prop}
  {who : ι} {mine : κ → Prop} {state other : σ}

/-- The keys are named by one party and by no other. -/
def Separate (names : γ → κ → Prop) (who : ι) (mine : κ → Prop) (event : ι × τ × γ) : Prop :=
  ∀ key, names event.2.2 key → (event.1 = who ↔ mine key)

theorem Confined.after (confined : Confined step view names valid allowed before)
    {time later : τ} {command : γ} (isAllowed : allowed command) (ok : valid state)
    (otherOk : valid other) (inOrder : before time later)
    (agree : ∀ key, mine key → view time state key = view time other key)
    (own : ∀ key, names command key → mine key) :
    ∀ key, mine key → view later (step time command state).2 key =
      view later (step time command other).2 key := by
  intro key isMine
  refine confined.later inOrder ?_
  by_cases named : names command key
  · exact confined.effect isAllowed ok otherOk (fun key named => agree key (own key named)) key
      named
  · rw [confined.frame isAllowed ok key named, confined.frame isAllowed otherOk key named]
    exact agree key isMine

theorem Confined.elsewhere (confined : Confined step view names valid allowed before)
    {time later : τ} {command : γ} (isAllowed : allowed command) (ok : valid state)
    (inOrder : before time later)
    (agree : ∀ key, mine key → view time state key = view time other key)
    (foreign : ∀ key, names command key → ¬ mine key) :
    ∀ key, mine key → view later (step time command state).2 key = view later other key := by
  intro key isMine
  refine confined.later inOrder ?_
  rw [confined.frame isAllowed ok key fun named => foreign key named isMine]
  exact agree key isMine

/-- A party gets the replies that it gets alone. -/
theorem Confined.isolated (confined : Confined step view names valid allowed before)
    {run : List (ι × τ × γ)} (inOrder : (run.map fun event => event.2.1).Pairwise before)
    (areAllowed : ∀ event ∈ run, allowed event.2.2)
    (separate : ∀ event ∈ run, Separate names who mine event)
    (ok : valid state) (otherOk : valid other)
    (agree : ∀ event ∈ run, ∀ key, mine key →
      view event.2.1 state key = view event.2.1 other key) :
    repliesTo step who state run = replies step other (share who run) := by
  induction run generalizing state other with
  | nil => rfl
  | cons event run ih =>
      obtain ⟨party, time, command⟩ := event
      obtain ⟨first, inOrder⟩ := List.pairwise_cons.mp inOrder
      obtain ⟨isAllowed, areAllowed⟩ := List.forall_mem_cons.mp areAllowed
      obtain ⟨apart, separate⟩ := List.forall_mem_cons.mp separate
      obtain ⟨here, -⟩ := List.forall_mem_cons.mp agree
      have following (later : ι × τ × γ) (member : later ∈ run) : before time later.2.1 :=
        first _ (List.mem_map_of_mem member)
      have kept : valid (step time command state).2 := confined.stays isAllowed ok
      by_cases same : party = who
      · have own (key : κ) (named : names command key) : mine key := (apart key named).mp same
        have shared : share who ((party, time, command) :: run) =
            (time, command) :: share who run := by
          simp [share, same]
        rw [shared]
        simp only [repliesTo, replies, if_pos same]
        rw [confined.reply isAllowed ok otherOk fun key named => here key (own key named)]
        refine congrArg _ (ih inOrder areAllowed separate kept
          (confined.stays isAllowed otherOk) fun later member => ?_)
        exact confined.after isAllowed ok otherOk (following later member) here own
      · have foreign (key : κ) (named : names command key) : ¬ mine key :=
          fun isMine => same ((apart key named).mpr isMine)
        have shared : share who ((party, time, command) :: run) = share who run := by
          simp [share, same]
        rw [shared]
        simp only [repliesTo, if_neg same]
        exact ih inOrder areAllowed separate kept otherOk fun later member =>
          confined.elsewhere isAllowed ok (following later member) here foreign

end Runs

end Isolation
