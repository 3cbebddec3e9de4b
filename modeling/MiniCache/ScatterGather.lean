import MiniCache.OrderedDict
import Mathlib.Data.List.Induction
import Mathlib.Data.List.Nodup
import Mathlib.Data.List.Perm.Basic
import Mathlib.Logic.Function.Basic

/-!
# Scattering requests and gathering their answers

A family of independent machines serves requests, each of which has an owner.  Serving
them one at a time in order is, for every machine, serving its own share; machines that
take their turns in any order end where their numbers of turns lead them; and answers that
are written back by position make up the list of answers in order.
-/

namespace ScatterGather

variable {ι κ σ β γ : Type*} [DecidableEq ι]

/-- The requests of one owner, in order. -/
def share (owner : κ → Option ι) (node : ι) (requests : List κ) : List κ :=
  requests.filter (owner · = some node)

theorem share_cons_own {owner : κ → Option ι} {node : ι} {request : κ}
    (own : owner request = some node) (requests : List κ) :
    share owner node (request :: requests) = request :: share owner node requests :=
  List.filter_cons_of_pos (by simpa using own)

theorem share_cons_other {owner : κ → Option ι} {node : ι} {request : κ}
    (other : owner request ≠ some node) (requests : List κ) :
    share owner node (request :: requests) = share owner node requests :=
  List.filter_cons_of_neg (by simpa using other)

/-- The requests may be given in another form. -/
theorem share_map {κ' : Type*} (owner : κ → Option ι) (view : κ' → κ) (node : ι)
    (requests : List κ') :
    (share (fun request => owner (view request)) node requests).map view =
      share owner node (requests.map view) := by
  rw [share, share, List.filter_map]
  rfl

section Grouping

/-- Add what a request gives to the group of its owner. -/
def place (owner : κ → Option ι) (give : κ → List γ) (groups : OrderedDict ι (List γ))
    (request : κ) : Option (OrderedDict ι (List γ)) :=
  (owner request).map fun node =>
    groups.setItem node ((groups.get? node).getD [] ++ give request)

/-- Collect what the requests give in a dictionary, by their owners. -/
def collect (owner : κ → Option ι) (give : κ → List γ) (requests : List κ) :
    Option (OrderedDict ι (List γ)) :=
  requests.foldlM (place owner give) .empty

variable {owner : κ → Option ι} {give : κ → List γ} {requests : List κ}

theorem collect_concat {request : κ} {groups : OrderedDict ι (List γ)} :
    collect owner give (requests ++ [request]) = some groups ↔
      ∃ before node, collect owner give requests = some before ∧ owner request = some node ∧
        groups = before.setItem node ((before.get? node).getD [] ++ give request) := by
  simp only [collect, place, List.foldlM_append, List.foldlM_cons, List.foldlM_nil, bind_pure,
    Option.bind_eq_bind, Option.bind_eq_some_iff, Option.map_eq_some_iff]
  constructor
  · rintro ⟨before, first, node, owned, rfl⟩
    exact ⟨before, node, first, owned, rfl⟩
  · rintro ⟨before, node, first, owned, rfl⟩
    exact ⟨before, first, node, owned, rfl⟩

/-- A group holds what the share of its owner gives. -/
theorem get?_collect {groups : OrderedDict ι (List γ)}
    (collected : collect owner give requests = some groups) (node : ι) :
    groups.get? node =
      if share owner node requests = [] then none
      else some ((share owner node requests).flatMap give) := by
  induction requests using List.reverseRec generalizing groups with
  | nil =>
      cases collected
      simp [share]
  | append_singleton requests request ih =>
      obtain ⟨before, place, first, owned, rfl⟩ := collect_concat.mp collected
      have earlier := ih first
      have shares : share owner node (requests ++ [request]) =
          share owner node requests ++ if place = node then [request] else [] := by
        rw [share, List.filter_append, ← share]
        by_cases same : place = node <;> simp [owned, same]
      rw [OrderedDict.get?_setItem, shares]
      by_cases same : node = place
      · subst same
        have nonempty : share owner node requests ++ [request] ≠ [] := by simp
        rw [if_pos rfl, if_pos rfl, if_neg nonempty, earlier]
        split_ifs with none
        · rw [none]
          simp
        · simp
      · rw [if_neg same, if_neg (Ne.symm same), List.append_nil, earlier]

theorem share_of_absent {groups : OrderedDict ι (List γ)}
    (collected : collect owner give requests = some groups) {node : ι}
    (absent : groups.get? node = none) : share owner node requests = [] := by
  rw [get?_collect collected] at absent
  by_contra some
  rw [if_neg some] at absent
  cases absent

theorem owned_of_collect {groups : OrderedDict ι (List γ)}
    (collected : collect owner give requests = some groups) {request : κ}
    (member : request ∈ requests) : ∃ node, owner request = some node := by
  induction requests using List.reverseRec generalizing groups with
  | nil => cases member
  | append_singleton requests last ih =>
      obtain ⟨before, place, first, owned, -⟩ := collect_concat.mp collected
      rcases List.mem_append.mp member with earlier | isLast
      · exact ih first earlier
      · exact ⟨place, List.mem_singleton.mp isLast ▸ owned⟩

theorem exists_collect (owned : ∀ request ∈ requests, ∃ node, owner request = some node) :
    ∃ groups, collect owner give requests = some groups := by
  induction requests using List.reverseRec with
  | nil => exact ⟨.empty, rfl⟩
  | append_singleton requests request ih =>
      obtain ⟨groups, first⟩ := ih fun other member => owned other (List.mem_append_left _ member)
      obtain ⟨node, place⟩ := owned request (by simp)
      exact ⟨_, collect_concat.mpr ⟨groups, node, first, place, rfl⟩⟩

/-- The entries of the groups are the shares. -/
theorem mem_collect {groups : OrderedDict ι (List γ)}
    (collected : collect owner give requests = some groups) {node : ι} {group : List γ} :
    (node, group) ∈ groups.entries ↔
      share owner node requests ≠ [] ∧ group = (share owner node requests).flatMap give := by
  rw [← OrderedDict.get?_eq_some_iff, get?_collect collected]
  split_ifs with none
  · simp [none]
  · rw [Option.some.injEq, eq_comm, and_iff_right none]

end Grouping

section Turns

/-- A number of turns of one machine. -/
def steps (step : σ → Option σ) : Nat → σ → Option σ
  | 0, state => some state
  | count + 1, state => (step state).bind (steps step count)

/-- The machines take turns. -/
def turns (step : σ → Option σ) : List ι → (ι → σ) → Option (ι → σ)
  | [], states => some states
  | node :: schedule, states =>
      (step (states node)).bind fun next =>
        turns step schedule (Function.update states node next)

/-- Every schedule leads each machine as far as its number of turns does. -/
theorem turns_eq {step : σ → Option σ} {schedule : List ι} {states after : ι → σ}
    (each : ∀ node,
      steps step (schedule.countP (· = node)) (states node) = some (after node)) :
    turns step schedule states = some after := by
  induction schedule generalizing states with
  | nil =>
      have same : states = after := funext fun node => Option.some.inj (each node)
      rw [turns, same]
  | cons first schedule ih =>
      have here := each first
      rw [List.countP_cons, if_pos (decide_eq_true rfl), steps] at here
      obtain ⟨next, stepped, rest⟩ := Option.bind_eq_some_iff.mp here
      rw [turns, stepped, Option.bind_some]
      refine ih fun node => ?_
      by_cases same : node = first
      · subst same
        rw [Function.update_self]
        exact rest
      · have different : ¬ decide (first = node) = true := by simpa using Ne.symm same
        rw [Function.update_of_ne same, ← each node, List.countP_cons, if_neg different,
          Nat.add_zero]

end Turns

section OneByOne

/-- One machine serves its requests in order. -/
def serial (serve : κ → σ → Option (β × σ)) : List κ → σ → Option (List β × σ)
  | [], state => some ([], state)
  | request :: requests, state =>
      (serve request state).bind fun first =>
        (serial serve requests first.2).map fun others => (first.1 :: others.1, others.2)

/-- The requests are served one at a time, each by its owner. -/
def each (owner : κ → Option ι) (serve : κ → σ → Option (β × σ)) :
    List κ → (ι → σ) → Option (List β × (ι → σ))
  | [], states => some ([], states)
  | request :: requests, states =>
      (owner request).bind fun node => (serve request (states node)).bind fun first =>
        (each owner serve requests (Function.update states node first.2)).map fun others =>
          (first.1 :: others.1, others.2)

variable {owner : κ → Option ι} {serve : κ → σ → Option (β × σ)} {requests : List κ}
  {states after : ι → σ} {replies : List β}

/-- What `each` does with one request and the others. -/
theorem each_cons {request : κ} :
    each owner serve (request :: requests) states = some (replies, after) ↔
      ∃ node reply next others, owner request = some node ∧
        serve request (states node) = some (reply, next) ∧
        each owner serve requests (Function.update states node next) = some (others, after) ∧
        replies = reply :: others := by
  simp only [each, Option.bind_eq_some_iff, Option.map_eq_some_iff, Prod.exists, Prod.mk.injEq]
  constructor
  · rintro ⟨node, owned, reply, next, served, others, states, rest, rfl, rfl⟩
    exact ⟨node, reply, next, others, owned, served, rest, rfl⟩
  · rintro ⟨node, reply, next, others, owned, served, rest, rfl⟩
    exact ⟨node, owned, reply, next, served, others, after, rest, rfl, rfl⟩

theorem serial_cons {request : κ} {state last : σ} :
    serial serve (request :: requests) state = some (replies, last) ↔
      ∃ reply next others, serve request state = some (reply, next) ∧
        serial serve requests next = some (others, last) ∧ replies = reply :: others := by
  simp only [serial, Option.bind_eq_some_iff, Option.map_eq_some_iff, Prod.exists,
    Prod.mk.injEq]
  constructor
  · rintro ⟨reply, next, served, others, state, rest, rfl, rfl⟩
    exact ⟨reply, next, others, served, rest, rfl⟩
  · rintro ⟨reply, next, others, served, rest, rfl⟩
    exact ⟨reply, next, served, others, last, rest, rfl, rfl⟩

theorem length_each (done : each owner serve requests states = some (replies, after)) :
    replies.length = requests.length := by
  induction requests generalizing states replies with
  | nil =>
      cases done
      rfl
  | cons request requests ih =>
      obtain ⟨node, reply, next, others, -, -, rest, rfl⟩ := each_cons.mp done
      rw [List.length_cons, List.length_cons, ih rest]

theorem owned_of_each (done : each owner serve requests states = some (replies, after))
    {request : κ} (member : request ∈ requests) : ∃ node, owner request = some node := by
  induction requests generalizing states replies with
  | nil => cases member
  | cons first requests ih =>
      obtain ⟨node, reply, next, others, owned, -, rest, rfl⟩ := each_cons.mp done
      rcases List.mem_cons.mp member with rfl | later
      · exact ⟨node, owned⟩
      · exact ih rest later

/-- The requests of one owner with their replies. -/
def answered (owner : κ → Option ι) (node : ι) (requests : List κ) (replies : List β) :
    List (κ × β) :=
  share (fun pair : κ × β => owner pair.1) node (requests.zip replies)

theorem answered_cons_own {owner : κ → Option ι} {node : ι} {request : κ} {reply : β}
    {replies : List β} (own : owner request = some node) :
    answered owner node (request :: requests) (reply :: replies) =
      (request, reply) :: answered owner node requests replies := by
  simp only [answered, share, List.zip_cons_cons]
  exact List.filter_cons_of_pos (by simpa using own)

theorem answered_cons_other {owner : κ → Option ι} {node : ι} {request : κ} {reply : β}
    {replies : List β} (other : owner request ≠ some node) :
    answered owner node (request :: requests) (reply :: replies) =
      answered owner node requests replies := by
  simp only [answered, share, List.zip_cons_cons]
  exact List.filter_cons_of_neg (by simpa using other)

/-- Each machine serves its share. -/
theorem each_share (done : each owner serve requests states = some (replies, after))
    (node : ι) :
    serial serve (share owner node requests) (states node) =
      some ((answered owner node requests replies).map Prod.snd, after node) := by
  induction requests generalizing states replies with
  | nil =>
      cases done
      rfl
  | cons request requests ih =>
      obtain ⟨place, reply, next, others, owned, served, rest, rfl⟩ := each_cons.mp done
      have earlier := ih rest
      by_cases own : owner request = some node
      · obtain rfl := Option.some.inj (owned.symm.trans own)
        rw [Function.update_self] at earlier
        rw [share_cons_own own, answered_cons_own own, List.map_cons]
        exact serial_cons.mpr ⟨reply, next, _, served, earlier, rfl⟩
      · have different : node ≠ place := fun same => own (same ▸ owned)
        rw [Function.update_of_ne different] at earlier
        rw [share_cons_other own, answered_cons_other own]
        exact earlier

/-- Requests with different owners do not meet. -/
theorem each_distinct {place : κ → ι} {result : κ → β}
    (distinct : (requests.map place).Nodup)
    (served : ∀ request ∈ requests,
      serve request (states (place request)) = some (result request, after (place request)))
    (others : ∀ node ∉ requests.map place, after node = states node) :
    each (fun request => some (place request)) serve requests states =
      some (requests.map result, after) := by
  induction requests generalizing states with
  | nil =>
      have same : states = after := funext fun node => (others node (by simp)).symm
      rw [each, same, List.map_nil]
  | cons request requests ih =>
      rw [List.map_cons, List.nodup_cons] at distinct
      obtain ⟨new, distinct⟩ := distinct
      refine each_cons.mpr ⟨place request, result request, after (place request), _, rfl,
        served request (List.mem_cons_self ..), ih distinct ?_ ?_, rfl⟩
      · intro other member
        have different : place other ≠ place request :=
          fun same => new (same ▸ List.mem_map_of_mem (f := place) member)
        rw [Function.update_of_ne different]
        exact served other (List.mem_cons_of_mem _ member)
      · intro node absent
        by_cases same : node = place request
        · rw [same, Function.update_self]
        · rw [Function.update_of_ne same]
          refine others node fun member => ?_
          rcases List.mem_cons.mp member with first | later
          · exact same first
          · exact absent later

theorem map_fst_answered (same : replies.length = requests.length) (node : ι) :
    (answered owner node requests replies).map Prod.fst = share owner node requests := by
  rw [answered, share_map owner Prod.fst, List.map_fst_zip (Nat.le_of_eq same.symm)]

end OneByOne

section Filling

/-- Write values into a list at their positions. -/
def fill (blank : List β) (pairs : List (Nat × β)) : List β :=
  pairs.foldl (fun results pair => results.set pair.1 pair.2) blank

/-- A position that is written to holds the value that belongs there. -/
theorem getElem?_fill {target blank : List β} {pairs : List (Nat × β)}
    (right : ∀ pair ∈ pairs, target[pair.1]? = some pair.2)
    (same : blank.length = target.length) (position : Nat) :
    (fill blank pairs)[position]? =
      if position ∈ pairs.map Prod.fst then target[position]? else blank[position]? := by
  induction pairs generalizing blank with
  | nil => simp [fill]
  | cons pair pairs ih =>
      have here := right pair (List.mem_cons_self ..)
      have later := @ih (blank.set pair.1 pair.2)
        (fun other member => right other (List.mem_cons_of_mem _ member))
        (by rw [List.length_set, same])
      rw [fill, List.foldl_cons, ← fill, later, List.map_cons]
      by_cases written : position ∈ pairs.map Prod.fst
      · rw [if_pos written, if_pos (List.mem_cons_of_mem _ written)]
      · rw [if_neg written]
        by_cases first : position = pair.1
        · subst first
          have inside : pair.1 < blank.length := by
            rw [same]
            exact (List.getElem?_eq_some_iff.mp here).1
          rw [if_pos (List.mem_cons_self ..), List.getElem?_set_self inside, here]
        · rw [List.getElem?_set_ne (Ne.symm first), if_neg]
          rintro (_ | member)
          · exact first rfl
          · exact written ‹_›

/-- When every position is written to, the list is full. -/
theorem fill_eq {target blank : List β} {pairs : List (Nat × β)}
    (right : ∀ pair ∈ pairs, target[pair.1]? = some pair.2)
    (same : blank.length = target.length)
    (covers : ∀ position < target.length, position ∈ pairs.map Prod.fst) :
    fill blank pairs = target := by
  apply List.ext_getElem?
  intro position
  rw [getElem?_fill right same]
  split_ifs with written
  · rfl
  · have outside : target.length ≤ position := by
      by_contra inside
      exact written (covers position (Nat.lt_of_not_le inside))
    rw [List.getElem?_eq_none_iff.mpr outside, List.getElem?_eq_none_iff.mpr (same ▸ outside)]

section Positions

variable {owner : κ → Option ι} {requests : List κ} {replies : List β}
  {groups : OrderedDict ι (List Nat)}

theorem getElem?_of_mem_zip {item : (κ × Nat) × β}
    (member : item ∈ requests.zipIdx.zip replies) :
    requests[item.1.2]? = some item.1.1 ∧ replies[item.1.2]? = some item.2 := by
  obtain ⟨position, found⟩ := List.mem_iff_getElem?.mp member
  obtain ⟨inRequests, inReplies⟩ := List.getElem?_zip_eq_some.mp found
  rw [List.getElem?_zipIdx, Option.map_eq_some_iff] at inRequests
  obtain ⟨request, here, same⟩ := inRequests
  rw [← same, Nat.zero_add]
  exact ⟨here, inReplies⟩

theorem map_snd_answered_zipIdx (node : ι) :
    (answered (fun item : κ × Nat => owner item.1) node requests.zipIdx replies).map Prod.snd =
      (answered owner node requests replies).map Prod.snd := by
  have plain : (requests.zipIdx.zip replies).map (Prod.map Prod.fst id) =
      requests.zip replies := by
    rw [← List.zip_map, List.zipIdx_map_fst, List.map_id]
  rw [answered, answered, ← plain, ← share_map, List.map_map]
  rfl

theorem share_of_no_group
    (collected : collect (fun item : κ × Nat => owner item.1) (fun item => [item.2])
      requests.zipIdx = some groups) {node : ι} (absent : groups.get? node = none) :
    share owner node requests = [] := by
  have nothing := share_of_absent collected absent
  rw [← List.zipIdx_map_fst 0 requests, ← share_map, nothing, List.map_nil]

theorem share_of_group
    (collected : collect (fun item : κ × Nat => owner item.1) (fun item => [item.2])
      requests.zipIdx = some groups) {node : ι} {group : List Nat}
    (member : (node, group) ∈ groups.entries) : share owner node requests ≠ [] := by
  have nonempty := ((mem_collect collected).mp member).1
  rw [← List.zipIdx_map_fst 0 requests, ← share_map]
  simpa using nonempty

/-- The requests at the positions of a group are the share of its owner. -/
theorem map_getD_group (default : κ)
    (collected : collect (fun item : κ × Nat => owner item.1) (fun item => [item.2])
      requests.zipIdx = some groups) {node : ι} {group : List Nat}
    (member : (node, group) ∈ groups.entries) :
    group.map (requests.getD · default) = share owner node requests := by
  obtain ⟨-, rfl⟩ := (mem_collect collected).mp member
  rw [← List.map_eq_flatMap, List.map_map]
  have looked : ∀ item ∈ share (fun item : κ × Nat => owner item.1) node requests.zipIdx,
      ((requests.getD · default) ∘ Prod.snd) item = item.1 := by
    intro item isShare
    have here := List.mem_zipIdx_iff_getElem?.mp (List.mem_of_mem_filter isShare)
    simp [here]
  rw [List.map_congr_left looked, share_map, List.zipIdx_map_fst]

/-- The positions of a group, next to the replies to its share, are the positions of these
replies. -/
theorem zip_answered (same : replies.length = requests.length)
    (collected : collect (fun item : κ × Nat => owner item.1) (fun item => [item.2])
      requests.zipIdx = some groups) {node : ι} {group : List Nat}
    (member : (node, group) ∈ groups.entries) :
    group.zip ((answered owner node requests replies).map Prod.snd) =
      (answered (fun item : κ × Nat => owner item.1) node requests.zipIdx replies).map
        fun item => (item.1.2, item.2) := by
  have lengths : replies.length = requests.zipIdx.length := by rw [same, List.length_zipIdx]
  obtain ⟨-, rfl⟩ := (mem_collect collected).mp member
  rw [← List.map_eq_flatMap, ← map_fst_answered lengths, ← map_snd_answered_zipIdx,
    List.map_map, List.zip_map']
  rfl

/-- Replies that are gathered by group are written back to their positions. -/
theorem fill_gathered {blank : List β} (same : replies.length = requests.length)
    (collected : collect (fun item : κ × Nat => owner item.1) (fun item => [item.2])
      requests.zipIdx = some groups)
    (blankLength : blank.length = requests.length) :
    fill blank (groups.entries.flatMap fun entry =>
      entry.2.zip ((answered owner entry.1 requests replies).map Prod.snd)) = replies := by
  refine fill_eq ?_ (blankLength.trans same.symm) ?_
  · intro pair member
    obtain ⟨⟨node, group⟩, isEntry, inZip⟩ := List.mem_flatMap.mp member
    rw [zip_answered same collected isEntry] at inZip
    obtain ⟨item, isAnswer, rfl⟩ := List.mem_map.mp inZip
    exact (getElem?_of_mem_zip (List.mem_of_mem_filter isAnswer)).2
  · intro position inside
    have inRequests : position < requests.length := same ▸ inside
    let item : (κ × Nat) × β := ((requests[position], position), replies[position])
    have member : item ∈ requests.zipIdx.zip replies := by
      refine List.mem_iff_getElem?.mpr ⟨position, List.getElem?_zip_eq_some.mpr ⟨?_, ?_⟩⟩
      · rw [List.getElem?_zipIdx, List.getElem?_eq_getElem inRequests, Option.map_some,
          Nat.zero_add]
      · exact List.getElem?_eq_getElem inside
    obtain ⟨node, owned⟩ := owned_of_collect collected (List.of_mem_zip member).1
    have isAnswer : item ∈
        answered (fun item : κ × Nat => owner item.1) node requests.zipIdx replies :=
      List.mem_filter.mpr ⟨member, decide_eq_true owned⟩
    have shared : share (fun item : κ × Nat => owner item.1) node requests.zipIdx ≠ [] :=
      List.ne_nil_of_mem (List.mem_filter.mpr ⟨(List.of_mem_zip member).1, decide_eq_true owned⟩)
    have isEntry := (mem_collect collected).mpr ⟨shared, rfl⟩
    refine List.mem_map.mpr ⟨(position, replies[position]), List.mem_flatMap.mpr
      ⟨_, isEntry, ?_⟩, rfl⟩
    rw [zip_answered same collected isEntry]
    exact List.mem_map.mpr ⟨item, isAnswer, rfl⟩

end Positions

end Filling

end ScatterGather
