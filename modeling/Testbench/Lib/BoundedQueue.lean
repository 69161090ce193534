import Testbench.Lib.Run

/-!
A bounded queue as a history.

The abstract queue keeps every element it ever accepted and a count of those
already taken, so that "not lost, not duplicated, not reordered" holds by
construction: the queue is what the history has beyond the count. An offer to a
full queue is refused.

`run_refines` is the refinement rule. A machine whose steps change a list the way
`Effect` says holds, after every run, the image of an abstract queue, and has
handed out the image of what the abstract queue gave up.
-/

namespace Testbench.Lib

variable {α β σ ο : Type*} {cap : Nat}

/-- A history of accepted elements, oldest first, of which the first `taken` have
left the queue. -/
structure BoundedQueue (α : Type*) (cap : Nat) where
  accepted : List α
  taken : Nat
  taken_le : taken ≤ accepted.length
  bounded : accepted.length - taken ≤ cap

/-- What a step does to a queue. A read carries the element it handed out. -/
inductive QueueEvent (α β : Type*) where
  | offer (a : α)
  | take (out : β)
  | clear
  | idle

namespace BoundedQueue

variable (q : BoundedQueue α cap)

def empty : BoundedQueue α cap := ⟨[], 0, le_rfl, Nat.zero_le _⟩

/-- What is in the queue: the accepted elements that have not been taken. -/
def content : List α := q.accepted.drop q.taken

theorem length_content : q.content.length = q.accepted.length - q.taken :=
  List.length_drop

/-- Accept one element, unless the queue is full. -/
def offer (a : α) : BoundedQueue α cap :=
  if h : q.accepted.length - q.taken < cap then
    { accepted := q.accepted ++ [a]
      taken := q.taken
      taken_le := by
        have := q.taken_le
        simp only [List.length_append, List.length_singleton]
        omega
      bounded := by
        simp only [List.length_append, List.length_singleton]
        omega }
  else q

/-- Give up the oldest element, if there is one. -/
def take : BoundedQueue α cap :=
  if h : q.taken < q.accepted.length then
    { accepted := q.accepted, taken := q.taken + 1, taken_le := h
      bounded := by have := q.bounded; omega }
  else q

theorem content_offer (a : α) :
    (q.offer a).content = if q.content.length < cap then q.content ++ [a] else q.content := by
  unfold offer
  rw [q.length_content]
  split
  · exact List.drop_append_of_le_length q.taken_le
  · rfl

theorem content_take : q.take.content = q.content.tail := by
  unfold take
  split
  · simp [content]
  · next h =>
    have hnil : q.content = [] := List.drop_eq_nil_of_le (not_lt.mp h)
    rw [hnil]
    rfl

/-- The next element to leave a non-empty queue is the oldest one not taken. -/
theorem head?_content : q.content.head? = q.accepted[q.taken]? := by
  simp [content]

@[simp] theorem taken_offer (a : α) : (q.offer a).taken = q.taken := by
  unfold offer; split <;> rfl

@[simp] theorem accepted_take : q.take.accepted = q.accepted := by
  unfold take; split <;> rfl

/-- An offer does not change which elements have been taken. -/
theorem take_accepted_offer (a : α) :
    (q.offer a).accepted.take q.taken = q.accepted.take q.taken := by
  unfold offer
  split
  · exact List.take_append_of_le_length q.taken_le
  · rfl

/-- Taking the head of the content adds it to what has been taken. -/
theorem take_accepted_take {a : α} {rest : List α} (h : q.content = a :: rest) :
    q.accepted.take q.take.taken = q.accepted.take q.taken ++ [a] := by
  have hget : q.accepted[q.taken]? = some a := by rw [← q.head?_content, h]; rfl
  have hlt : q.taken < q.accepted.length := by
    by_contra hge
    rw [List.getElem?_eq_none (not_lt.mp hge)] at hget
    cases hget
  unfold take
  rw [dif_pos hlt, List.take_add_one, hget]
  rfl

/-- The queue after an event. -/
def step (q : BoundedQueue α cap) : QueueEvent α β → BoundedQueue α cap
  | .offer a => q.offer a
  | .take _ => q.take
  | .clear => empty
  | .idle => q

end BoundedQueue

/-! ### Refinement -/

/-- What an event does to a list that stands for a queue of capacity `cap`. -/
def Effect (cap : Nat) (f : α → β) (before after : List β) : QueueEvent α β → Prop
  | .offer a => after = if before.length < cap then before ++ [f a] else before
  | .take out => before = out :: after
  | .clear => after = []
  | .idle => after = before

/-- What the list holds after an event it held before, or it was offered. -/
theorem mem_of_effect {f : α → β} {before after : List β} {e : QueueEvent α β}
    (heff : Effect cap f before after e) {b : β} (hb : b ∈ after) :
    b ∈ before ∨ ∃ a, e = .offer a ∧ b = f a := by
  cases e with
  | offer a =>
    rw [heff] at hb
    split at hb
    · rcases List.mem_append.mp hb with hold | hnew
      · exact .inl hold
      · exact .inr ⟨a, rfl, List.mem_singleton.mp hnew⟩
    · exact .inl hb
  | take out =>
    rw [heff]
    exact .inl (List.mem_cons_of_mem _ hb)
  | clear =>
    rw [heff] at hb
    cases hb
  | idle =>
    rw [heff] at hb
    exact .inl hb

/-- The elements handed out since the last clear. -/
def delivered (events : List (QueueEvent α β)) : List β :=
  events.foldl (fun out e => match e with
    | .take b => out ++ [b]
    | .clear => []
    | _ => out) []

theorem delivered_append_singleton (events : List (QueueEvent α β)) (e : QueueEvent α β) :
    delivered (events ++ [e]) = match e with
      | .take b => delivered events ++ [b]
      | .clear => []
      | _ => delivered events := by
  simp only [delivered, List.foldl_append, List.foldl_cons, List.foldl_nil]

/-- One event keeps list and history in step. -/
theorem content_step {f : α → β} (q : BoundedQueue α cap) {before after : List β}
    {e : QueueEvent α β} (hcontent : before = q.content.map f) (heff : Effect cap f before after e) :
    after = (q.step e).content.map f := by
  cases e with
  | offer a =>
    simp only [Effect, hcontent, List.length_map] at heff
    rw [heff, BoundedQueue.step, q.content_offer]
    split <;> simp
  | take out =>
    simp only [Effect, hcontent] at heff
    rw [BoundedQueue.step, q.content_take, List.map_tail, heff]
    rfl
  | clear => exact heff
  | idle => exact heff.trans hcontent

/-- One event keeps what was handed out in step with what was taken. -/
theorem delivered_step {f : α → β} (q : BoundedQueue α cap) {before after : List β}
    {events : List (QueueEvent α β)} {e : QueueEvent α β} (hcontent : before = q.content.map f)
    (heff : Effect cap f before after e)
    (hout : delivered events = (q.accepted.take q.taken).map f) :
    delivered (events ++ [e]) = ((q.step e).accepted.take (q.step e).taken).map f := by
  rw [delivered_append_singleton]
  cases e with
  | offer a =>
    simp only [BoundedQueue.step, BoundedQueue.taken_offer]
    rw [q.take_accepted_offer, hout]
  | take out =>
    simp only [Effect, hcontent] at heff
    obtain ⟨a, rest, hq, rfl, -⟩ := List.map_eq_cons_iff.mp heff
    simp only [BoundedQueue.step, BoundedQueue.accepted_take]
    rw [q.take_accepted_take hq, hout, List.map_append]
    rfl
  | clear => rfl
  | idle => exact hout

variable {step : σ → ο → σ} {view : σ → ο → QueueEvent α β} {content : σ → List β} {f : α → β}

/-- **Refinement of a bounded queue.** When each step has the effect its view
announces, the list is at every point the image of an abstract queue, and the
elements handed out are the image of the ones the abstract queue gave up. -/
theorem run_refines (heff : ∀ s op, Effect cap f (content s) (content (step s op)) (view s op))
    {s : σ} (hs : content s = []) (ops : List ο) :
    let q := run BoundedQueue.step (BoundedQueue.empty : BoundedQueue α cap)
      (trace step view s ops)
    content (run step s ops) = q.content.map f ∧
      delivered (trace step view s ops) = (q.accepted.take q.taken).map f := by
  induction ops using List.reverseRecOn with
  | nil => exact ⟨hs, rfl⟩
  | append_singleton ops op ih =>
    obtain ⟨hcontent, hout⟩ := ih
    simp only [trace_append_singleton, run_append_singleton]
    exact ⟨content_step _ hcontent (heff _ _), delivered_step _ hcontent (heff _ _) hout⟩

end Testbench.Lib
