import Mathlib.Data.List.Basic
import Mathlib.Data.List.ReduceOption

/-!
# The SUB socket

The receiving end of a publish/subscribe transport. A message is a list, and the socket
subscribes to prefixes: it keeps what is published and starts with one of them, in the
order of publication, until it is received.

- `deliver`, `recv`, `pollin`: the socket;
- `Event`, `polls`: a client that polls now and then, and what each poll finds;
- `received_append_inbox`: **nothing is lost, added or reordered**;
- `mem_of_mem_polls`: what is found was published and starts with a subscribed prefix.
-/

namespace Anx.Lib

universe u

/-- What happens at a socket: a message is published, or the client polls. -/
inductive Event (M : Type u) where
  | publish (m : M)
  | poll
deriving DecidableEq

/-- The published messages, in order. -/
def published {M : Type u} : List (Event M) → List M
  | [] => []
  | .publish m :: es => m :: published es
  | .poll :: es => published es

@[simp] theorem published_replicate_poll {M : Type u} (n : Nat) (es : List (Event M)) :
    published (List.replicate n .poll ++ es) = published es := by
  induction n with
  | zero => rfl
  | succ n ih => exact ih

/-- A SUB socket: the subscribed prefixes and the messages not yet received. -/
structure SubSocket (α : Type u) where
  subscriptions : List (List α)
  inbox : List (List α)
deriving DecidableEq

namespace SubSocket

variable {α : Type u}

/-- A fresh socket subscribes to nothing. -/
def init : SubSocket α := ⟨[], []⟩

/-- Subscribe to the messages that start with `topic`. -/
def subscribe (s : SubSocket α) (topic : List α) : SubSocket α :=
  { s with subscriptions := s.subscriptions ++ [topic] }

/-- The message starts with a subscribed prefix. -/
def Wants (s : SubSocket α) (m : List α) : Prop := ∃ topic ∈ s.subscriptions, topic <+: m

@[simp] theorem wants_init_subscribe (topic m : List α) :
    (init.subscribe topic).Wants m ↔ topic <+: m := by
  simp [Wants, init, subscribe]

variable [DecidableEq α]

instance (s : SubSocket α) (m : List α) : Decidable (s.Wants m) :=
  inferInstanceAs (Decidable (∃ topic ∈ s.subscriptions, topic <+: m))

/-- A message is published. -/
def deliver (s : SubSocket α) (m : List α) : SubSocket α :=
  if s.Wants m then { s with inbox := s.inbox ++ [m] } else s

/-- Receive a message; `none` when the call would wait. -/
def recv (s : SubSocket α) : Option (List α × SubSocket α) :=
  match s.inbox with
  | [] => none
  | m :: ms => some (m, { s with inbox := ms })

/-- `poll` reports a message. -/
def pollin (s : SubSocket α) : Bool := !s.inbox.isEmpty

/-- What the polls of a run find: a message, or none in time. -/
def polls (s : SubSocket α) : List (Event (List α)) → List (Option (List α))
  | [] => []
  | .publish m :: es => (s.deliver m).polls es
  | .poll :: es =>
    match s.recv with
    | some (m, t) => some m :: t.polls es
    | none => none :: s.polls es

/-- The socket after a run. -/
def after (s : SubSocket α) : List (Event (List α)) → SubSocket α
  | [] => s
  | .publish m :: es => (s.deliver m).after es
  | .poll :: es =>
    match s.recv with
    | some (_, t) => t.after es
    | none => s.after es

/-! ## One step -/

@[simp] theorem subscriptions_deliver (s : SubSocket α) (m : List α) :
    (s.deliver m).subscriptions = s.subscriptions := by
  unfold deliver
  split <;> rfl

theorem deliver_of_wants {s : SubSocket α} {m : List α} (h : s.Wants m) :
    s.deliver m = { s with inbox := s.inbox ++ [m] } := if_pos h

theorem deliver_of_not_wants {s : SubSocket α} {m : List α} (h : ¬ s.Wants m) :
    s.deliver m = s := if_neg h

theorem inbox_deliver (s : SubSocket α) (m : List α) :
    (s.deliver m).inbox = s.inbox ++ [m].filter (s.Wants ·) := by
  by_cases h : s.Wants m
  · simp [deliver_of_wants h, h]
  · simp [deliver_of_not_wants h, h]

theorem polls_poll_nil {s : SubSocket α} (h : s.inbox = []) (es : List (Event (List α))) :
    s.polls (.poll :: es) = none :: s.polls es := by
  rw [polls, recv, h]

theorem polls_poll_cons {s : SubSocket α} {m : List α} {ms : List (List α)}
    (h : s.inbox = m :: ms) (es : List (Event (List α))) :
    s.polls (.poll :: es) = some m :: polls { s with inbox := ms } es := by
  rw [polls, recv, h]

/-- Polls that come too early. -/
theorem polls_replicate_poll {s : SubSocket α} (h : s.inbox = []) (n : Nat)
    (es : List (Event (List α))) :
    s.polls (List.replicate n .poll ++ es) = List.replicate n none ++ s.polls es := by
  induction n with
  | zero => rfl
  | succ n ih =>
    show s.polls (.poll :: (List.replicate n .poll ++ es)) =
      none :: (List.replicate n none ++ s.polls es)
    rw [polls_poll_nil h, ih]

/-- A message is found by the poll after its publication. -/
theorem polls_publish_poll {s : SubSocket α} (h : s.inbox = []) (m : List α) :
    s.polls [.publish m, .poll] = [if s.Wants m then some m else none] := by
  show (s.deliver m).polls [.poll] = _
  have hin := inbox_deliver s m
  rw [h] at hin
  by_cases hm : s.Wants m
  · rw [polls_poll_cons (by simpa [hm] using hin), if_pos hm]
    rfl
  · rw [polls_poll_nil (by simpa [hm] using hin), if_neg hm]
    rfl

/-- A poll answers, whatever the socket holds. -/
theorem length_polls (s t : SubSocket α) (es : List (Event (List α))) :
    (s.polls es).length = (t.polls es).length := by
  induction es generalizing s t with
  | nil => rfl
  | cons e es ih =>
    cases e with
    | publish m => exact ih _ _
    | poll =>
      have hpoll : ∀ u : SubSocket α, ∃ v : SubSocket α,
          (u.polls (.poll :: es)).length = (v.polls es).length + 1 := by
        intro u
        cases hin : u.inbox with
        | nil => exact ⟨u, by rw [polls_poll_nil hin, List.length_cons]⟩
        | cons m ms => exact ⟨_, by rw [polls_poll_cons hin, List.length_cons]⟩
      obtain ⟨s', hs⟩ := hpoll s
      obtain ⟨t', ht⟩ := hpoll t
      rw [hs, ht, ih s' t']

/-! ## A whole run -/

/-- **What the polls found and what is left to receive are the messages that were waiting
and the wanted ones of those published, in order.** -/
theorem received_append_inbox (s : SubSocket α) (es : List (Event (List α))) :
    (s.polls es).reduceOption ++ (s.after es).inbox =
      s.inbox ++ (published es).filter (s.Wants ·) := by
  induction es generalizing s with
  | nil => simp [polls, after, published]
  | cons e es ih =>
    cases e with
    | publish m =>
      have hwants : ∀ m', (s.deliver m).Wants m' ↔ s.Wants m' := fun m' => by simp [Wants]
      show ((s.deliver m).polls es).reduceOption ++ ((s.deliver m).after es).inbox = _
      rw [ih, inbox_deliver, List.append_assoc]
      simp only [hwants, published, List.filter_cons, List.filter_nil]
      split <;> rfl
    | poll =>
      cases hin : s.inbox with
      | nil =>
        have hafter : s.after (.poll :: es) = s.after es := by rw [after, recv, hin]
        rw [polls_poll_nil hin, hafter, List.reduceOption_cons_of_none, ih, hin]
        rfl
      | cons m ms =>
        have hafter : s.after (.poll :: es) = after { s with inbox := ms } es := by
          rw [after, recv, hin]
        rw [polls_poll_cons hin, hafter, List.reduceOption_cons_of_some, List.cons_append, ih]
        rfl

/-- What a poll finds is waiting or published and wanted. -/
theorem mem_of_mem_polls {s : SubSocket α} {es : List (Event (List α))} {m : List α}
    (h : some m ∈ s.polls es) : m ∈ s.inbox ∨ m ∈ published es ∧ s.Wants m := by
  have hmem : m ∈ (s.polls es).reduceOption ++ (s.after es).inbox :=
    List.mem_append_left _ (List.reduceOption_mem_iff.mpr h)
  rw [received_append_inbox] at hmem
  rcases List.mem_append.mp hmem with hin | hpub
  · exact Or.inl hin
  · have hm := List.mem_filter.mp hpub
    exact Or.inr ⟨hm.1, of_decide_eq_true hm.2⟩

end SubSocket

end Anx.Lib
