import Anx.Lib.Effect
import Anx.Lib.Lines
import Anx.Lib.RepSocket
import Anx.Lib.SubSocket
import Mathlib.Algebra.Group.Nat.Defs

/-!
# Subscribing by topic

`createSubscriberInstance` and `listen` of native-lib.cpp over the `Subscriber` of
ipc_transport.cpp. Both read memory that they no longer own:

- `_topic` is made from the pointer to the characters of the *address*, after these were
  released; what is found there is `Env.released`;
- `Subscriber::listen` returns a pointer to the content of a local message, which is
  destroyed on return; what is copied from there is `Env.stale`.

`Subscribes` says that the polls return the messages that start with the topic, in order,
and can be told from those that time out. **It holds exactly if both reads find what was
there before the topic took its place** (`subscribes_iff`). With memory left as it was that
leaves the topics that are equal to their address (`subscribes_of_untouched_iff`).
-/

namespace Anx.Comms

open Anx.Lib

/-- What surrounds the native code: the JNI, the freed memory and the network. -/
structure Env where
  /-- `GetStringUTFChars`, up to the closing zero. -/
  getStringUTFChars : Text → Bytes
  /-- The characters at the released pointer to those of `address`, once the characters of
  `topic` were fetched. -/
  released : Text → Text → Bytes
  /-- `connect` accepts the address. -/
  connects : Bytes → Bool
  /-- What is copied, at a call of `listen`, in place of the content of its message. -/
  stale : Nat → Bytes → Bytes
  /-- As many bytes are copied as the message had. -/
  length_stale : ∀ i msg, (stale i msg).length = msg.length

/-- The UTF-8 bytes of a text. -/
def utf8 (s : Text) : Bytes := s.flatMap String.utf8EncodeChar

/-! ## The native code -/

/-- `bytes_t`: the content of a message, or null. -/
structure BytesT where
  data : Option Bytes
  size : Nat

/-- `Subscriber`: `poller_` tells whether the pointer to the poll item was set. -/
structure Subscriber where
  address_ : Bytes
  socket_ : SubSocket UInt8
  poller_ : Bool

namespace Subscriber

/-- The constructor. An exception of `connect` is logged, and leaves the rest undone. -/
def new (env : Env) (address topic : Bytes) : Subscriber :=
  if env.connects address then ⟨address, SubSocket.init.subscribe topic, true⟩
  else ⟨address, .init, false⟩

/-- `Subscriber::listen`. -/
def listen : Prog Subscriber BytesT := fun s =>
  -- `zmq::poll` throws when it is given no items, outside of the `try`
  if s.poller_ = false then .throw s
  else if s.socket_.pollin then
    match s.socket_.recv with
    | some (msg, socket) => .ok ⟨some msg, msg.length⟩ { s with socket_ := socket }
    | none => .hang s
  else .ok ⟨none, 0⟩ s

end Subscriber

/-- A subscriber and the number of calls of `listen` so far. -/
structure Session where
  subscriber : Subscriber
  listens : Nat

/-- `createSubscriberInstance`. -/
def createSubscriberInstance (env : Env) (address topic : Text) : Session :=
  let _address := env.getStringUTFChars address
  let _topic := env.released address topic
  ⟨.new env _address _topic, 0⟩

/-- The array that `listen` makes of what `Subscriber::listen` returns. -/
def newByteArray (env : Env) (i : Nat) (bytes : BytesT) : Bytes :=
  match bytes.data with
  | some msg => env.stale i msg
  | none => []

/-- `listen`. -/
def listen (env : Env) : Prog Session Bytes := fun s =>
  match s.subscriber.listen with
  | .ok bytes t => .ok (newByteArray env s.listens bytes) ⟨t, s.listens + 1⟩
  | .throw t => .throw ⟨t, s.listens + 1⟩
  | .hang t => .hang ⟨t, s.listens + 1⟩
  | .undef t => .undef ⟨t, s.listens + 1⟩

/-- A message arrives at the socket. -/
def Session.publish (s : Session) (m : Bytes) : Session :=
  { s with subscriber := { s.subscriber with socket_ := s.subscriber.socket_.deliver m } }

/-- What the calls of `listen` return while messages are published. -/
def run (env : Env) : List (Event Bytes) → Prog Session (List Bytes)
  | [] => pure []
  | .publish m :: es => do
    Prog.modify (·.publish m)
    run env es
  | .poll :: es => do
    let bytes ← listen env
    let rest ← run env es
    pure (bytes :: rest)

/-! ## What is asked for -/

/-- The published messages fit into a Java array. -/
def Publishable (es : List (Event Bytes)) : Prop := ∀ m ∈ published es, m.length < 2 ^ 31

/-- `result` is the message that was found, or no message on the topic at all. -/
def Answers (topic : Bytes) (found : Option Bytes) (result : Bytes) : Prop :=
  match found with
  | some m => result = m
  | none => ¬ topic <+: result

/-- Whatever is published, every call of `listen` returns the next message that starts with
the topic or, if none is waiting, something that is not such a message. -/
def Subscribes (env : Env) (address topic : Text) : Prop :=
  ∀ es, Publishable es → ∃ results s,
    run env es (createSubscriberInstance env address topic) = .ok results s ∧
    List.Forall₂ (Answers (utf8 topic)) ((SubSocket.init.subscribe (utf8 topic)).polls es) results

/-! ## What the calls return -/

/-- What `listen` returns for what the polls found, from its call `i` on. -/
def answers (env : Env) : Nat → List (Option Bytes) → List Bytes
  | _, [] => []
  | i, found :: rest => found.elim [] (env.stale i) :: answers env (i + 1) rest

section

variable {env : Env} {s : Session}

theorem listen_nil (hp : s.subscriber.poller_ = true) (h : s.subscriber.socket_.inbox = []) :
    listen env s = .ok [] { s with listens := s.listens + 1 } := by
  have hpoll : s.subscriber.socket_.pollin = false := by simp [SubSocket.pollin, h]
  have hsub : s.subscriber.listen = .ok ⟨none, 0⟩ s.subscriber := by
    simp [Subscriber.listen, hp, hpoll]
  rw [listen, hsub]
  rfl

theorem listen_cons (hp : s.subscriber.poller_ = true) {m : Bytes} {ms : List Bytes}
    (h : s.subscriber.socket_.inbox = m :: ms) :
    listen env s = .ok (env.stale s.listens m)
      ⟨{ s.subscriber with socket_ := { s.subscriber.socket_ with inbox := ms } },
        s.listens + 1⟩ := by
  have hpoll : s.subscriber.socket_.pollin = true := by simp [SubSocket.pollin, h]
  have hsub : s.subscriber.listen = .ok ⟨some m, m.length⟩
      { s.subscriber with socket_ := { s.subscriber.socket_ with inbox := ms } } := by
    simp [Subscriber.listen, hp, hpoll, SubSocket.recv, h]
  rw [listen, hsub]
  rfl

/-- Without a poll item the first call of `listen` ends the process. -/
theorem run_of_not_poller (hp : s.subscriber.poller_ = false) (es : List (Event Bytes)) :
    ∃ t, run env (.poll :: es) s = .throw t := by
  have hsub : s.subscriber.listen = .throw s.subscriber := by simp [Subscriber.listen, hp]
  refine ⟨_, Prog.bind_throw (t := ⟨s.subscriber, s.listens + 1⟩) ?_⟩
  rw [listen, hsub]

theorem run_of_poller (hp : s.subscriber.poller_ = true) (es : List (Event Bytes)) :
    ∃ t, run env es s = .ok (answers env s.listens (s.subscriber.socket_.polls es)) t := by
  induction es generalizing s with
  | nil => exact ⟨s, rfl⟩
  | cons e es ih =>
    cases e with
    | publish m => exact ih (s := s.publish m) hp
    | poll =>
      cases h : s.subscriber.socket_.inbox with
      | nil =>
        obtain ⟨t, ht⟩ := ih (s := { s with listens := s.listens + 1 }) hp
        refine ⟨t, ?_⟩
        rw [run, Prog.bind_ok (listen_nil hp h), Prog.bind_ok ht, SubSocket.polls_poll_nil h]
        rfl
      | cons m ms =>
        obtain ⟨t, ht⟩ := ih (s := ⟨{ s.subscriber with
          socket_ := { s.subscriber.socket_ with inbox := ms } }, s.listens + 1⟩) hp
        refine ⟨t, ?_⟩
        rw [run, Prog.bind_ok (listen_cons hp h), Prog.bind_ok ht, SubSocket.polls_poll_cons h]
        rfl

end

/-- The answers of a socket that subscribed to `subscribed` are those for `topic`. -/
def Serves (env : Env) (topic subscribed : Bytes) : Prop :=
  ∀ es, Publishable es → List.Forall₂ (Answers topic)
    ((SubSocket.init.subscribe topic).polls es)
    (answers env 0 ((SubSocket.init.subscribe subscribed).polls es))

theorem subscribes_iff_serves (env : Env) (address topic : Text) :
    Subscribes env address topic ↔ env.connects (env.getStringUTFChars address) = true ∧
      Serves env (utf8 topic) (env.released address topic) := by
  by_cases hconn : env.connects (env.getStringUTFChars address) = true
  · have hnew : createSubscriberInstance env address topic = ⟨⟨env.getStringUTFChars address,
        SubSocket.init.subscribe (env.released address topic), true⟩, 0⟩ := by
      simp [createSubscriberInstance, Subscriber.new, hconn]
    have hrun : ∀ es, ∃ t, run env es (createSubscriberInstance env address topic) = .ok
        (answers env 0 ((SubSocket.init.subscribe (env.released address topic)).polls es)) t := by
      rw [hnew]
      exact run_of_poller rfl
    rw [and_iff_right hconn]
    constructor
    · intro h es hes
      obtain ⟨t, ht⟩ := hrun es
      obtain ⟨results, s, hs, hall⟩ := h es hes
      rw [ht] at hs
      cases hs
      exact hall
    · intro h es hes
      obtain ⟨t, ht⟩ := hrun es
      exact ⟨_, t, ht, h es hes⟩
  · refine iff_of_false (fun h => ?_) (fun h => hconn h.1)
    have hp : (createSubscriberInstance env address topic).subscriber.poller_ = false := by
      simp [createSubscriberInstance, Subscriber.new, hconn]
    -- the poll item was never made, so already the first call fails
    obtain ⟨results, s, hs, -⟩ := h [.poll] (fun m hm => by cases hm)
    have hrun : ∃ t, run env [.poll] (createSubscriberInstance env address topic) = .throw t :=
      run_of_not_poller hp []
    obtain ⟨t, ht⟩ := hrun
    rw [ht] at hs
    cases hs

/-! ## When the answers are right -/

section

variable {env : Env} {topic subscribed : Bytes}

/-- Every content is copied as it was, and no content is empty. -/
theorem answers_of_reads (hne : topic ≠ []) (found : List (Option Bytes)) (i : Nat)
    (h : ∀ j m, some m ∈ found → env.stale j m = m) :
    List.Forall₂ (Answers topic) found (answers env i found) := by
  induction found generalizing i with
  | nil => exact .nil
  | cons o found ih =>
    refine .cons ?_ (ih (i + 1) fun j m hm => h j m (List.mem_cons_of_mem _ hm))
    cases o with
    | none => exact fun hpre => hne (List.prefix_nil.mp hpre)
    | some m => exact h i m List.mem_cons_self

/-- No answer starts with a topic that is longer than all messages. -/
theorem answers_of_long (hlong : ¬ topic.length < 2 ^ 31) (found found' : List (Option Bytes))
    (i : Nat) (hlen : found.length = found'.length) (hnone : ∀ o ∈ found, o = none)
    (hshort : ∀ m, some m ∈ found' → m.length < 2 ^ 31) :
    List.Forall₂ (Answers topic) found (answers env i found') := by
  induction found generalizing found' i with
  | nil =>
    cases found' with
    | nil => exact .nil
    | cons o found' => cases hlen
  | cons o found ih =>
    cases found' with
    | nil => cases hlen
    | cons o' found' =>
      refine .cons ?_ (ih found' (i + 1) (Nat.succ.inj hlen)
        (fun o ho => hnone o (List.mem_cons_of_mem _ ho))
        (fun m hm => hshort m (List.mem_cons_of_mem _ hm)))
      rw [hnone o List.mem_cons_self]
      intro hpre
      have hle := hpre.length_le
      cases o' with
      | none =>
        simp only [Option.elim_none, List.length_nil] at hle
        omega
      | some m =>
        have hm := hshort m List.mem_cons_self
        have hcopied : (env.stale i m).length = m.length := env.length_stale i m
        simp only [Option.elim_some] at hle
        omega

/-- What is found on a topic was published and starts with it. -/
theorem published_of_found {es : List (Event Bytes)} {m : Bytes}
    (h : some m ∈ (SubSocket.init.subscribe subscribed).polls es) :
    m ∈ published es ∧ subscribed <+: m := by
  rcases SubSocket.mem_of_mem_polls h with hin | ⟨hpub, hwants⟩
  · cases hin
  · exact ⟨hpub, (SubSocket.wants_init_subscribe _ _).mp hwants⟩

theorem serves_of_reads (hne : topic ≠ [])
    (h : ∀ i m, topic <+: m → m.length < 2 ^ 31 → env.stale i m = m) : Serves env topic topic := by
  intro es hes
  refine answers_of_reads hne _ 0 fun j m hm => ?_
  obtain ⟨hpub, hpre⟩ := published_of_found hm
  exact h j m hpre (hes m hpub)

theorem serves_of_long (hlong : ¬ topic.length < 2 ^ 31) : Serves env topic subscribed := by
  intro es hes
  refine answers_of_long hlong _ _ 0 (SubSocket.length_polls _ _ es) (fun o ho => ?_)
    (fun m hm => hes m (published_of_found hm).1)
  cases o with
  | none => rfl
  | some m =>
    obtain ⟨hpub, hpre⟩ := published_of_found ho
    exact absurd (Nat.lt_of_le_of_lt hpre.length_le (hes m hpub)) hlong

/-- Polls that come too early do not change the answers to what follows. -/
theorem forall₂_answers_of_replicate (n : Nat) {i : Nat} {found found' : List (Option Bytes)}
    (h : List.Forall₂ (Answers topic) (List.replicate n none ++ found)
      (answers env i (List.replicate n none ++ found'))) :
    List.Forall₂ (Answers topic) found (answers env (i + n) found') := by
  induction n generalizing i with
  | zero => exact h
  | succ n ih =>
    have htail := (List.forall₂_cons.mp h).2
    rw [Nat.add_comm n 1, ← Nat.add_assoc]
    exact ih htail

/-- The answer to one message, at call `i`. -/
theorem Serves.publish_poll (h : Serves env topic subscribed) (i : Nat) {m : Bytes}
    (hm : m.length < 2 ^ 31) : Answers topic (if topic <+: m then some m else none)
      (if subscribed <+: m then env.stale i m else []) := by
  have hes : Publishable (List.replicate i .poll ++ [.publish m, .poll]) := by
    intro m' hm'
    rw [published_replicate_poll] at hm'
    rw [List.mem_singleton.mp hm']
    exact hm
  have hall := h _ hes
  rw [SubSocket.polls_replicate_poll rfl, SubSocket.polls_replicate_poll rfl,
    SubSocket.polls_publish_poll rfl, SubSocket.polls_publish_poll rfl] at hall
  have hlast := (List.forall₂_cons.mp (forall₂_answers_of_replicate i hall)).1
  rw [Nat.zero_add] at hlast
  simp only [SubSocket.wants_init_subscribe] at hlast
  by_cases hsub : subscribed <+: m
  · rw [if_pos hsub]
    rwa [if_pos hsub] at hlast
  · rw [if_neg hsub]
    rwa [if_neg hsub] at hlast

theorem Serves.ne_nil (h : Serves env topic subscribed) : topic ≠ [] := by
  rintro rfl
  have hall := h [.poll] (fun m hm => by cases hm)
  have hnone := (List.forall₂_cons.mp hall).1
  exact hnone List.nil_prefix

/-- The topic itself, as a message, shows that nothing longer was subscribed to. -/
theorem Serves.starts (h : Serves env topic subscribed) (hshort : topic.length < 2 ^ 31) :
    subscribed <+: topic := by
  have hans := h.publish_poll 0 hshort
  rw [if_pos List.prefix_rfl] at hans
  by_contra hnot
  rw [if_neg hnot] at hans
  exact h.ne_nil hans.symm

/-- What was subscribed to is published before the topic, and would be received in its
place if it were shorter. -/
theorem Serves.eq (h : Serves env topic subscribed) (hshort : topic.length < 2 ^ 31) :
    subscribed = topic := by
  have hpre := h.starts hshort
  by_contra hne
  have hlt : subscribed.length < topic.length :=
    Nat.lt_of_le_of_ne hpre.length_le fun hlen => hne (hpre.eq_of_length hlen)
  have hnot : ¬ topic <+: subscribed := fun hback =>
    absurd hback.length_le (Nat.not_le.mpr hlt)
  have hes : Publishable [.publish subscribed, .publish topic, .poll] := by
    intro m hm
    rcases List.mem_cons.mp hm with rfl | hm
    · omega
    · rwa [List.mem_singleton.mp hm]
  have hall := h _ hes
  have hfound : (SubSocket.init.subscribe topic).polls
      [.publish subscribed, .publish topic, .poll] = [some topic] := by
    show ((SubSocket.init.subscribe topic).deliver subscribed).polls _ = _
    rw [SubSocket.deliver_of_not_wants (by simpa using hnot), SubSocket.polls_publish_poll rfl,
      if_pos (by simp)]
  have hans : ∃ rest, (SubSocket.init.subscribe subscribed).polls
      [.publish subscribed, .publish topic, .poll] = some subscribed :: rest := by
    have hin : (((SubSocket.init.subscribe subscribed).deliver subscribed).deliver topic).inbox =
        [subscribed, topic] := by
      rw [SubSocket.inbox_deliver, SubSocket.inbox_deliver]
      simp [SubSocket.init, SubSocket.subscribe, SubSocket.Wants, hpre]
    exact ⟨_, SubSocket.polls_poll_cons hin []⟩
  obtain ⟨rest, hrest⟩ := hans
  rw [hfound, hrest] at hall
  have hcopied : env.stale 0 subscribed = topic := (List.forall₂_cons.mp hall).1
  have hlen := env.length_stale 0 subscribed
  rw [hcopied] at hlen
  omega

theorem Serves.stale (h : Serves env topic topic) (i : Nat) {m : Bytes} (hpre : topic <+: m)
    (hm : m.length < 2 ^ 31) : env.stale i m = m := by
  have hans := h.publish_poll i hm
  rwa [if_pos hpre, if_pos hpre] at hans

theorem serves_iff : Serves env topic subscribed ↔
    (topic.length < 2 ^ 31 → topic ≠ [] ∧ subscribed = topic ∧
      ∀ i m, topic <+: m → m.length < 2 ^ 31 → env.stale i m = m) := by
  constructor
  · intro h hshort
    obtain rfl := h.eq hshort
    exact ⟨h.ne_nil, rfl, fun i m hpre hm => h.stale i hpre hm⟩
  · intro h
    by_cases hshort : topic.length < 2 ^ 31
    · obtain ⟨hne, rfl, hstale⟩ := h hshort
      exact serves_of_reads hne hstale
    · exact serves_of_long hshort

end

theorem utf8_eq_nil {s : Text} : utf8 s = [] ↔ s = [] := by
  constructor
  · intro h
    cases s with
    | nil => rfl
    | cons c cs =>
      have hc : String.utf8EncodeChar c = [] := (List.append_eq_nil_iff.mp h).1
      have hlen : 0 = c.utf8Size := by rw [← String.length_utf8EncodeChar, hc, List.length_nil]
      exact absurd hlen (Nat.ne_of_lt c.utf8Size_pos)
  · rintro rfl
    rfl

/-- **A subscriber returns the messages on its topic exactly if its address can be connected
to and, unless the topic is longer than all messages, the topic is not empty, the released
characters of the address have become those of the topic, and the content of a destroyed
message on the topic is still there when it is copied.** -/
theorem subscribes_iff (env : Env) (address topic : Text) :
    Subscribes env address topic ↔ env.connects (env.getStringUTFChars address) = true ∧
      ((utf8 topic).length < 2 ^ 31 → topic ≠ [] ∧ env.released address topic = utf8 topic ∧
        ∀ i m, utf8 topic <+: m → m.length < 2 ^ 31 → env.stale i m = m) := by
  rw [subscribes_iff_serves, serves_iff, Ne, utf8_eq_nil]

/-! ## Memory as it was left -/

/-- Freed memory keeps its content and every address is accepted. -/
def Env.untouched : Env where
  getStringUTFChars := utf8
  released address _ := utf8 address
  connects _ := true
  stale _ msg := msg
  length_stale _ _ := rfl

/-- The topic `imu` gets no message, not even one that is equal to it. -/
theorem not_subscribes_imu :
    ¬ Subscribes .untouched "tcp://127.0.0.1:5555".toList "imu".toList := by
  intro h
  have hes : Publishable [.publish (ascii "imu"), .poll] := by
    intro m hm
    rw [List.mem_singleton.mp hm]
    decide
  obtain ⟨results, s, hs, hall⟩ := h _ hes
  have hrun : ∃ t, run .untouched [.publish (ascii "imu"), .poll]
      (createSubscriberInstance .untouched "tcp://127.0.0.1:5555".toList "imu".toList) =
      .ok [[]] t := ⟨_, by rfl⟩
  obtain ⟨t, ht⟩ := hrun
  rw [ht] at hs
  cases hs
  have hfound : (SubSocket.init.subscribe (utf8 "imu".toList)).polls
      [.publish (ascii "imu"), .poll] = [some (ascii "imu")] := by decide
  rw [hfound] at hall
  have himu : [] = ascii "imu" := (List.forall₂_cons.mp hall).1
  cases himu

/-- Where freed memory keeps its content only the topic that equals the address is served. -/
theorem subscribes_of_untouched_iff {env : Env} {address topic : Text}
    (hreleased : env.released address topic = env.getStringUTFChars address)
    (hstale : ∀ i m, env.stale i m = m) :
    Subscribes env address topic ↔ env.connects (env.getStringUTFChars address) = true ∧
      ((utf8 topic).length < 2 ^ 31 → topic ≠ [] ∧ env.getStringUTFChars address = utf8 topic) := by
  rw [subscribes_iff_serves, serves_iff, Ne, utf8_eq_nil, hreleased]
  simp only [hstale, implies_true, and_true]

/-! ## What a subscriber has received -/

theorem filter_of_answers {topic : Bytes} {found : List (Option Bytes)} {results : List Bytes}
    (h : List.Forall₂ (Answers topic) found results) (hfound : ∀ m, some m ∈ found → topic <+: m) :
    results.filter (topic <+: ·) = found.reduceOption := by
  induction h with
  | nil => rfl
  | @cons o result found results hans _ ih =>
    have hrest := ih fun m hm => hfound m (List.mem_cons_of_mem _ hm)
    cases o with
    | none =>
      have hnot : ¬ topic <+: result := hans
      rw [List.reduceOption_cons_of_none, List.filter_cons_of_neg (by simpa using hnot), hrest]
    | some m =>
      obtain rfl : result = m := hans
      have hpre := hfound result List.mem_cons_self
      rw [List.reduceOption_cons_of_some, List.filter_cons_of_pos (by simpa using hpre), hrest]

/-- The results on the topic are the messages on it, in order, up to those still waiting. -/
theorem Subscribes.received {env : Env} {address topic : Text} (h : Subscribes env address topic)
    {es : List (Event Bytes)} (hes : Publishable es) : ∃ results s,
      run env es (createSubscriberInstance env address topic) = .ok results s ∧
      results.filter (utf8 topic <+: ·) <+: (published es).filter (utf8 topic <+: ·) := by
  obtain ⟨results, s, hs, hall⟩ := h es hes
  refine ⟨results, s, hs, ?_⟩
  rw [filter_of_answers hall fun m hm => (published_of_found hm).2]
  have hall' := SubSocket.received_append_inbox (SubSocket.init.subscribe (utf8 topic)) es
  simp only [SubSocket.wants_init_subscribe] at hall'
  exact ⟨_, hall'⟩

end Anx.Comms
