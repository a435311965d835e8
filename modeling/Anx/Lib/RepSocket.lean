import Mathlib.Data.List.Basic

/-!
# The REP socket

The replying end of a request/reply transport with multipart messages. A
*request* is a nonempty list of frames and is delivered whole. `recv` hands over
one frame at a time; `send` hands over one part of the reply, and the part sent
without the *more* flag completes it. The socket alternates strictly:

- `recv` is legal only while no reply is owed,
- `send` is legal only after the last frame of the current request was received,
- an illegal call fails and changes nothing,
- `pollin` reports readiness exactly when `recv` is legal and a frame is there.

Received frames carry their position (`Frame.request`, `Frame.index`), which no
client of the socket looks at: it is what statements about framing speak of.

Two observations carry the proofs about server loops: `Owing` (a reply is owed)
and `upcoming` (the frames that successive `recv` calls return before the socket
owes a reply). `recv_spec`, `recv_illegal_iff`, `send_spec` and `send_illegal` describe
the operations in these terms.
-/

namespace Anx.Lib

universe u

/-- Message contents. -/
abbrev Bytes := List UInt8

/-- The bytes of an ASCII string. -/
def ascii (s : String) : Bytes := s.toList.map fun c => c.val.toUInt8

/-- A multipart request: a first frame and any number of further ones. -/
structure Request where
  head : Bytes
  tail : List Bytes
deriving DecidableEq

/-- All frames of a request, in order. -/
def Request.frames (r : Request) : List Bytes := r.head :: r.tail

/-- A received frame with its position: frame `index` of request number `request`. -/
structure Frame where
  bytes : Bytes
  request : Nat
  index : Nat
deriving DecidableEq

/-- What the socket is doing. -/
inductive Phase (R : Type u) where
  /-- No request is being served. -/
  | idle
  /-- `head` and `read` were received; `next` and then `rest` are still to come. -/
  | reading (head : Bytes) (read : List Bytes) (next : Bytes) (rest : List Bytes)
  /-- All of `r` was received; `parts` of its reply were sent with the more flag. -/
  | owing (r : Request) (parts : List R)
deriving DecidableEq

/-- The phase after `head` and `read` were received and `rest` is still to come. -/
def Phase.after {R : Type u} (head : Bytes) (read : List Bytes) : List Bytes → Phase R
  | [] => .owing ⟨head, read⟩ []
  | next :: rest => .reading head read next rest

/-- A REP socket: the requests delivered and not begun, the current request, and
the requests served so far with their replies. -/
structure RepSocket (R : Type u) where
  inbox : List Request
  phase : Phase R
  served : List (Request × List R)
deriving DecidableEq

/-- The result of `recv`. -/
inductive Recv (R : Type u) where
  | got (f : Frame) (more : Bool) (s : RepSocket R)
  /-- A reply is owed: the call fails. -/
  | illegal
  /-- Nothing has arrived: the call waits. -/
  | wait

namespace RepSocket

variable {R : Type u}

/-- A fresh socket. -/
def init : RepSocket R := ⟨[], .idle, []⟩

/-- A request arrives, all frames at once. -/
def deliver (s : RepSocket R) (r : Request) : RepSocket R :=
  { s with inbox := s.inbox ++ [r] }

/-- Receive one frame. -/
def recv (s : RepSocket R) : Recv R :=
  match s.phase with
  | .idle =>
    match s.inbox with
    | [] => .wait
    | r :: rs =>
      -- the first frame of the next request
      .got ⟨r.head, s.served.length, 0⟩ (!r.tail.isEmpty)
        { s with inbox := rs, phase := .after r.head [] r.tail }
  | .reading head read next rest =>
    .got ⟨next, s.served.length, read.length + 1⟩ (!rest.isEmpty)
      { s with phase := .after head (read ++ [next]) rest }
  | .owing _ _ => .illegal

/-- Send one part of the reply; `none` when the call is illegal. -/
def send (s : RepSocket R) (part : R) (more : Bool) : Option (RepSocket R) :=
  match s.phase with
  | .owing r parts =>
    if more then
      some { s with phase := .owing r (parts ++ [part]) }
    else
      some { s with phase := .idle, served := s.served ++ [(r, parts ++ [part])] }
  | _ => none

/-- The frames that successive `recv` calls return before the socket owes a reply. -/
def upcoming (s : RepSocket R) : List Bytes :=
  match s.phase with
  | .idle => (s.inbox.head?.map Request.frames).getD []
  | .reading _ _ next rest => next :: rest
  | .owing _ _ => []

/-- `poll` reports a readable frame. -/
def pollin (s : RepSocket R) : Bool := !s.upcoming.isEmpty

/-! ## What is observed of a socket -/

/-- A reply is owed: the last frame of a request was received, its reply is not complete. -/
def Owing (s : RepSocket R) : Prop :=
  match s.phase with
  | .owing _ _ => True
  | _ => False

instance (s : RepSocket R) : Decidable s.Owing :=
  match s with
  | ⟨_, .idle, _⟩ => isFalse id
  | ⟨_, .reading _ _ _ _, _⟩ => isFalse id
  | ⟨_, .owing _ _, _⟩ => isTrue trivial

/-- The requests whose frames were all received. -/
def received (s : RepSocket R) : List Request :=
  s.served.map Prod.fst ++ match s.phase with
    | .owing r _ => [r]
    | _ => []

/-- The complete replies sent, in order. -/
def replies (s : RepSocket R) : List (List R) := s.served.map Prod.snd

/-- Every request delivered to the socket, in order. -/
def delivered (s : RepSocket R) : List Request :=
  s.received ++ (match s.phase with
    | .reading head read next rest => [⟨head, read ++ next :: rest⟩]
    | _ => []) ++ s.inbox

/-- Index, within its request, of the frame that the next `recv` returns. -/
def nextIndex (s : RepSocket R) : Nat :=
  match s.phase with
  | .reading _ read _ _ => read.length + 1
  | _ => 0

/-- Number of requests whose first frame was received. -/
def begun (s : RepSocket R) : Nat :=
  match s.phase with
  | .idle => s.served.length
  | _ => s.served.length + 1

/-- The parts of the current reply sent so far. -/
def parts (s : RepSocket R) : List R :=
  match s.phase with
  | .owing _ parts => parts
  | _ => []

/-- Replies lag behind received requests by exactly the reply that is owed. -/
theorem received_length (s : RepSocket R) :
    s.received.length = s.replies.length + if s.Owing then 1 else 0 := by
  obtain ⟨inbox, phase, served⟩ := s
  cases phase <;> simp [received, replies, Owing]

/-- No reply is owed exactly when every completely received request was replied to. -/
theorem not_owing_iff (s : RepSocket R) :
    ¬ s.Owing ↔ s.replies.length = s.received.length := by
  rw [received_length]
  by_cases h : s.Owing <;> simp [h]

@[simp] theorem delivered_deliver (s : RepSocket R) (r : Request) :
    (s.deliver r).delivered = s.delivered ++ [r] := by
  show s.received ++ _ ++ (s.inbox ++ [r]) = _
  rw [← List.append_assoc]
  rfl

/-- In the middle of a request an arrival does not change what is received next. -/
theorem deliver_upcoming {s : RepSocket R} (h : s.nextIndex ≠ 0) (r : Request) :
    (s.deliver r).upcoming = s.upcoming := by
  obtain ⟨inbox, phase, served⟩ := s
  cases phase with
  | idle => exact absurd rfl h
  | reading head read next rest => rfl
  | owing r parts => rfl

theorem upcoming_of_owing {s : RepSocket R} (h : s.Owing) : s.upcoming = [] := by
  obtain ⟨inbox, phase, served⟩ := s
  cases phase with
  | idle => exact h.elim
  | reading head read next rest => exact h.elim
  | owing r parts => rfl

/-- A frame about to be received that is the first of its request comes from the
inbox, and then every request begun is served. -/
theorem boundary {s : RepSocket R} {b : Bytes} {rest : List Bytes}
    (h : s.upcoming = b :: rest) (h0 : s.nextIndex = 0) :
    s.begun = s.served.length ∧ ∃ r rs, s.inbox = r :: rs ∧ r.frames = b :: rest := by
  obtain ⟨inbox, phase, served⟩ := s
  cases phase with
  | idle =>
    cases inbox with
    | nil => cases h
    | cons r rs => exact ⟨rfl, r, rs, rfl, h⟩
  | reading head read next rest => cases h0
  | owing r parts => cases h

/-- With no reply owed, nothing is upcoming only when nothing has arrived. -/
theorem inbox_of_upcoming_nil {s : RepSocket R} (h : ¬ s.Owing) (hup : s.upcoming = []) :
    s.inbox = [] := by
  obtain ⟨inbox, phase, served⟩ := s
  cases phase with
  | idle =>
    cases inbox with
    | nil => rfl
    | cons r rs => cases hup
  | reading head read next rest => cases hup
  | owing r parts => exact absurd trivial h

/-- At a request boundary with no reply owed every request is received or in the inbox. -/
theorem delivered_of_boundary {s : RepSocket R} (h : ¬ s.Owing) (h0 : s.nextIndex = 0) :
    s.delivered = s.received ++ s.inbox := by
  obtain ⟨inbox, phase, served⟩ := s
  cases phase with
  | idle => simp [delivered]
  | reading head read next rest => cases h0
  | owing r parts => exact absurd trivial h

theorem begun_le (s : RepSocket R) : s.begun ≤ s.served.length + 1 := by
  obtain ⟨inbox, phase, served⟩ := s
  cases phase with
  | idle => exact Nat.le_succ _
  | reading head read next rest => exact Nat.le_refl _
  | owing r parts => exact Nat.le_refl _

theorem pollin_iff (s : RepSocket R) : s.pollin = true ↔ s.upcoming ≠ [] := by
  simp [pollin]

/-! ## Receiving -/

/-- What `recv` did: it took the frame `f` off `s`, leaving `rest` of the request. -/
structure Received (s : RepSocket R) (f : Frame) (rest : List Bytes) (t : RepSocket R) : Prop where
  owing : t.Owing ↔ rest = []
  upcoming : rest ≠ [] → t.upcoming = rest
  served : t.served = s.served
  delivered : t.delivered = s.delivered
  request : f.request = s.served.length
  index : f.index = s.nextIndex
  next : rest ≠ [] → t.nextIndex = s.nextIndex + 1
  begun : t.begun = s.served.length + 1
  inbox : t.inbox = if s.nextIndex = 0 then s.inbox.tail else s.inbox
  parts : t.parts = []
  frames : ∃ r, s.delivered[s.served.length]? = some r ∧
    r.frames.drop s.nextIndex = f.bytes :: rest

/-- `recv` returns the first upcoming frame. -/
theorem recv_spec {s : RepSocket R} {b : Bytes} {rest : List Bytes} (h : s.upcoming = b :: rest) :
    ∃ f t, s.recv = .got f (!rest.isEmpty) t ∧ f.bytes = b ∧ s.Received f rest t := by
  obtain ⟨inbox, phase, served⟩ := s
  cases phase with
  | idle =>
    cases inbox with
    | nil => cases h
    | cons r rs =>
      -- the first frame, which is the last one when there is no tail
      cases h
      refine ⟨_, _, rfl, rfl, ?_⟩
      obtain ⟨head, tail⟩ := r
      cases tail with
      | nil =>
        exact ⟨by simp [Phase.after, Owing], by simp, rfl,
          by simp [delivered, received, Phase.after],
          rfl, rfl, by simp, rfl, rfl, rfl, ⟨⟨head, []⟩, by simp [delivered, received], rfl⟩⟩
      | cons next rest =>
        exact ⟨by simp [Phase.after, Owing], fun _ => rfl, rfl,
          by simp [delivered, received, Phase.after], rfl, rfl, fun _ => rfl, rfl,
          rfl, rfl, ⟨⟨head, next :: rest⟩, by simp [delivered, received], rfl⟩⟩
  | reading head read next rest' =>
    cases h
    refine ⟨_, _, rfl, rfl, ?_⟩
    -- the current request is still whole in `delivered`
    have hdrop : ∃ r, (delivered ⟨inbox, .reading head read b rest, served⟩ : List Request)[
        served.length]? = some r ∧ r.frames.drop (read.length + 1) = b :: rest :=
      ⟨⟨head, read ++ b :: rest⟩, by simp [delivered, received], by simp [Request.frames]⟩
    cases rest with
    | nil =>
      exact ⟨by simp [Phase.after, Owing], by simp, rfl, by simp [delivered, received, Phase.after],
        rfl, rfl, by simp, rfl, rfl, rfl, hdrop⟩
    | cons next' rest =>
      exact ⟨by simp [Phase.after, Owing], fun _ => rfl, rfl,
        by simp [delivered, received, Phase.after], rfl, rfl,
        fun _ => by simp [nextIndex, Phase.after], rfl, rfl, rfl, hdrop⟩
  | owing r parts => cases h

/-- `recv` fails exactly while a reply is owed. -/
theorem recv_illegal_iff {s : RepSocket R} : s.recv = .illegal ↔ s.Owing := by
  obtain ⟨inbox, phase, served⟩ := s
  cases phase with
  | idle => cases inbox <;> simp [recv, Owing]
  | reading head read next rest => simp [recv, Owing]
  | owing r parts => simp [recv, Owing]

/-- Having answered every received request, the socket can receive, and conversely. -/
theorem settled_iff {s : RepSocket R} :
    s.replies.length = s.received.length ∧ s.recv ≠ .illegal ↔ ¬ s.Owing := by
  rw [← s.not_owing_iff, Ne, recv_illegal_iff, and_self]

/-- After the last frame of a request the next one to come is a first frame. -/
theorem nextIndex_of_owing {s : RepSocket R} (h : s.Owing) : s.nextIndex = 0 := by
  obtain ⟨inbox, phase, served⟩ := s
  cases phase with
  | idle => rfl
  | reading head read next rest => exact h.elim
  | owing r parts => rfl

/-! ## Sending -/

/-- While no reply is owed, `send` fails. -/
theorem send_illegal {s : RepSocket R} (h : ¬ s.Owing) (part : R) (more : Bool) :
    s.send part more = none := by
  obtain ⟨inbox, phase, served⟩ := s
  cases phase with
  | idle => rfl
  | reading head read next rest => rfl
  | owing r parts => exact absurd trivial h

/-- What sending the parts `ps`, the last one without the more flag, did. -/
structure Replied (s : RepSocket R) (ps : List R) (t : RepSocket R) : Prop where
  idle : ¬ t.Owing
  replies : t.replies = s.replies ++ [s.parts ++ ps]
  received : t.received = s.received
  delivered : t.delivered = s.delivered
  inbox : t.inbox = s.inbox
  next : t.nextIndex = 0
  begun : t.begun = s.begun

/-- The last part of a reply completes it. -/
theorem send_spec {s : RepSocket R} (h : s.Owing) (part : R) :
    ∃ t, s.send part false = some t ∧ s.Replied [part] t := by
  obtain ⟨inbox, phase, served⟩ := s
  cases phase with
  | idle => exact h.elim
  | reading head read next rest => exact h.elim
  | owing r ps =>
    exact ⟨_, rfl, id, by simp [RepSocket.replies, parts], by simp [RepSocket.received],
      by simp [RepSocket.delivered, RepSocket.received], rfl, rfl, by simp [RepSocket.begun]⟩

/-- A part sent with the more flag leaves the reply owed, to be completed by `ps`. -/
theorem send_more_spec {s : RepSocket R} (h : s.Owing) (part : R) :
    ∃ t, s.send part true = some t ∧ t.Owing ∧
      ∀ ps u, t.Replied ps u → s.Replied (part :: ps) u := by
  obtain ⟨inbox, phase, served⟩ := s
  cases phase with
  | idle => exact h.elim
  | reading head read next rest => exact h.elim
  | owing r sent =>
    refine ⟨_, rfl, trivial, fun ps u hu => ?_⟩
    exact ⟨hu.idle, by simpa [parts, RepSocket.replies] using hu.replies, hu.received,
      hu.delivered, hu.inbox, hu.next, hu.begun⟩

end RepSocket

end Anx.Lib
