import Mathlib.Tactic.Common

/-! Requests that are answered in order over a connection that may be replaced.
An answer does not name its request: it is taken for the item that waits longest.
Replacing the connection loses the requests and leaves the items. -/
namespace Pipeline

variable {Item Request : Type*}

/-- The items that wait for an answer and the requests without one, both oldest
first. -/
structure State (Item Request : Type*) where
  waiting : List Item
  unanswered : List Request

inductive Label (Request : Type*) where
  | ask (requests : List Request)
  | answer
  | reconnect

/-- What each label does to the items and to the requests. Every request was made
for one item. -/
def Step (item : Request → Item) (s : State Item Request) :
    Label Request → State Item Request → Prop
  | .ask requests, t =>
    t.waiting = s.waiting ++ requests.map item ∧ t.unanswered = s.unanswered ++ requests
  | .answer, t => t.waiting = s.waiting.tail ∧ t.unanswered = s.unanswered.tail
  | .reconnect, t => t.waiting = s.waiting ∧ t.unanswered = []

/-- What the label asks has a property. -/
def Label.Asks (P : Request → Prop) : Label Request → Prop
  | .ask requests => ∀ request ∈ requests, P request
  | _ => True

/-- The items that wait are those of the requests without an answer. -/
def Matched (item : Request → Item) (s : State Item Request) : Prop :=
  s.waiting = s.unanswered.map item

/-- Items of lost requests may wait before those of the requests without an
answer. -/
def Covered (item : Request → Item) (s : State Item Request) : Prop :=
  ∃ older, s.waiting = older ++ s.unanswered.map item

variable {item : Request → Item} {s t : State Item Request} {label : Label Request}

theorem Step.ask_nil (s : State Item Request) : Step item s (.ask []) s :=
  ⟨(List.append_nil _).symm, (List.append_nil _).symm⟩

/-- The next answer is taken for the item of its own request. -/
theorem Matched.oldest (h : Matched item s) {request : Request}
    (hOldest : s.unanswered.head? = some request) : s.waiting.head? = some (item request) := by
  rw [h, List.head?_map, hOldest]
  rfl

/-- Only replacing the connection while items wait can break the matching, and it
always does. -/
theorem Step.matched_iff (step : Step item s label t) (h : Matched item s) :
    Matched item t ↔ (label = .reconnect → s.waiting = []) := by
  rw [Matched]
  cases label with
  | ask requests =>
      obtain ⟨hWaiting, hUnanswered⟩ := step
      refine iff_of_true ?_ (fun hReconnect => nomatch hReconnect)
      rw [hWaiting, hUnanswered, List.map_append, ← h]
  | answer =>
      obtain ⟨hWaiting, hUnanswered⟩ := step
      refine iff_of_true ?_ (fun hReconnect => nomatch hReconnect)
      rw [hWaiting, hUnanswered, List.map_tail, ← h]
  | reconnect =>
      obtain ⟨hWaiting, hUnanswered⟩ := step
      rw [hWaiting, hUnanswered, List.map_nil]
      exact ⟨fun hNone _ => hNone, fun hNone => hNone rfl⟩

/-- The requests without an answer stay covered by items that wait. -/
theorem Step.covered (step : Step item s label t) (h : Covered item s) : Covered item t := by
  obtain ⟨older, hOlder⟩ := h
  rw [Covered]
  cases label with
  | ask requests =>
      obtain ⟨hWaiting, hUnanswered⟩ := step
      refine ⟨older, ?_⟩
      rw [hWaiting, hUnanswered, hOlder, List.map_append, List.append_assoc]
  | answer =>
      obtain ⟨hWaiting, hUnanswered⟩ := step
      rw [hWaiting, hUnanswered, hOlder]
      -- the items of lost requests leave first
      cases older with
      | nil => exact ⟨[], by rw [List.nil_append, List.nil_append, List.map_tail]⟩
      | cons oldest older =>
          cases s.unanswered with
          | nil => exact ⟨older, by simp⟩
          | cons request rest => exact ⟨older ++ [item request], by simp⟩
  | reconnect =>
      obtain ⟨hWaiting, hUnanswered⟩ := step
      exact ⟨s.waiting, by rw [hWaiting, hUnanswered, List.map_nil, List.append_nil]⟩

/-- What holds of every request that is asked holds of those without an answer. -/
theorem Step.forall_unanswered {P : Request → Prop} (step : Step item s label t)
    (hAsks : label.Asks P) (h : ∀ request ∈ s.unanswered, P request) :
    ∀ request ∈ t.unanswered, P request := by
  intro request hMem
  cases label with
  | ask requests =>
      rw [step.2, List.mem_append] at hMem
      exact hMem.elim (h request) (hAsks request)
  | answer =>
      rw [step.2] at hMem
      exact h request (List.mem_of_mem_tail hMem)
  | reconnect =>
      rw [step.2] at hMem
      exact absurd hMem List.not_mem_nil

end Pipeline
