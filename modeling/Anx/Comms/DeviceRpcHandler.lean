import Anx.Lib.Machine
import Anx.Comms.Framing

/-!
# The device RPC server

`DeviceRpcHandler.RpcThread` (DeviceRpcHandler.kt:84–140) over the native
`Server` (ipc_transport.cpp:145–176, 216–226) and a REP socket. The thread polls
for a frame, treats it as an RPC name if more frames follow, receives one more
frame as payload, executes the RPC and sends its reply.

- `Server.listen`, `Server.sendResponse`: the native calls. Both swallow every
  exception of the socket, so an illegal call is silent.
- `RpcThread.iterate`: one iteration of the `while` loop, from loop head to loop
  head. Whatever arrives while it runs is appended to the socket's inbox, which
  it looks at only in its first poll, so it is one step of `RpcThread.machine`;
  requests, the interrupt flag and changes of the phone's state are the other
  steps and come in any order.
- `RpcThread.oneReply_iff`: the exact condition under which the server answers
  every request and stays alive.
- `RpcThread.wedged_run`: what follows a missed reply: nobody is answered again.
- `GetImeiNumbersRpc`: an RPC that throws on a phone with a free SIM slot, and so
  ends the thread (`RpcThread.getImei_kills`).

The registered RPCs are arbitrary: `execute` may read and change the phone's
state and may throw. The decoding of a name frame into a string (Java's
`String(bytes, charset)`) is a parameter that nothing is assumed of.
-/

namespace Anx.Comms

open Anx.Lib

universe u

/-- An RPC of the registry over a phone of state `W`: its name, and
`execute(ByteArray)`, which yields the serialized reply or throws (`none`). -/
structure Rpc (W : Type u) where
  name : String
  execute : W → Bytes → Option Bytes × W

/-- `rpcRegistry[rpc.name] = rpc` for each RPC in turn (DeviceRpcHandler.kt:50–70):
a later RPC replaces an earlier one of the same name. -/
def rpcRegistry {W : Type u} (rpcs : List (Rpc W)) (rpcName : String) : Option (Rpc W) :=
  rpcs.foldl (fun found rpc => if rpc.name = rpcName then some rpc else found) none

/-- What `rpcServer.send` is given. -/
inductive Reply where
  | stdResponse (success : Bool) (message : String)
  | reply (bytes : Bytes)
deriving DecidableEq

/-- `Message` (Message.kt), with the frame that its data was copied from. -/
structure Message where
  success : Bool
  more : Bool
  data : Bytes
  frame : Option Frame

namespace Server

/-- `Server::listen` (ipc_transport.cpp:145–176). -/
def listen (socket : RepSocket Reply) : Message × RepSocket Reply :=
  let message : Message := ⟨false, false, [], none⟩
  if socket.pollin then
    match socket.recv with
    | .got msg more socket' => (⟨true, more, msg.bytes, some msg⟩, socket')
    | .illegal => (message, socket)  -- caught: "Connection to ... terminated!"
    | .wait => (message, socket)
  else
    (message, socket)

/-- `Server::sendResponse` (ipc_transport.cpp:216–226). -/
def sendResponse (socket : RepSocket Reply) (payload : Reply) : Bool × RepSocket Reply :=
  match socket.send payload false with
  | some socket' => (true, socket')
  | none => (false, socket)

theorem listen_none {socket : RepSocket Reply} (h : socket.upcoming = []) :
    listen socket = (⟨false, false, [], none⟩, socket) := by
  have hp : socket.pollin = false := by simp [RepSocket.pollin, h]
  simp [listen, hp]

theorem listen_some {socket : RepSocket Reply} {b : Bytes} {rest : List Bytes}
    (h : socket.upcoming = b :: rest) :
    ∃ f t, f.bytes = b ∧ listen socket = (⟨true, !rest.isEmpty, b, some f⟩, t) ∧
      socket.Received f rest t := by
  obtain ⟨f, t, hrecv, rfl, hrec⟩ := RepSocket.recv_spec h
  have hp : socket.pollin = true := by simp [RepSocket.pollin, h]
  exact ⟨f, t, rfl, by simp [listen, hp, hrecv], hrec⟩

/-- The return code aside, `sendResponse` leaves the socket owing nothing. -/
theorem sendResponse_not_owing (socket : RepSocket Reply) (payload : Reply) :
    ¬ (sendResponse socket payload).2.Owing := by
  by_cases h : socket.Owing
  · obtain ⟨t, hsend, ht⟩ := RepSocket.send_spec h payload
    simpa [sendResponse, hsend] using ht.idle
  · simpa [sendResponse, RepSocket.send_illegal h payload false] using h

end Server

/-- How far the thread is: in its loop, past the loop because of the interrupt, or
ended by an exception (the `catch` at DeviceRpcHandler.kt:118 is outside the loop). -/
inductive ThreadStatus where
  | looping
  | closed
  | dead
deriving DecidableEq

/-- The state of an `RpcThread` at its loop head, and of what surrounds it. -/
structure RpcThread (W : Type u) where
  rpcServer : RepSocket Reply
  interrupt : Bool
  status : ThreadStatus
  /-- The phone, as the RPCs see it. -/
  world : W
  /-- What the frames received so far were read as. -/
  trace : Trace

namespace RpcThread

variable {W : Type u}

/-- The thread when it first reaches its loop. -/
def init (w : W) : RpcThread W := ⟨.init, false, .looping, w, .empty⟩

section Loop

variable (charset : Bytes → String) (rpcs : List (Rpc W))

/-- `handleRpc` (DeviceRpcHandler.kt:122–138). -/
def handleRpc (t : RpcThread W) (rpc : Option (Rpc W)) (data : Bytes) : RpcThread W :=
  match rpc with
  | none =>
    { t with
      rpcServer :=
        (Server.sendResponse t.rpcServer (.stdResponse false "Invalid RPC received")).2 }
  | some rpc =>
    match rpc.execute t.world data with
    | (some reply, w) =>
      { t with rpcServer := (Server.sendResponse t.rpcServer (.reply reply)).2, world := w }
    -- nothing between here and the end of the loop catches what `execute` throws
    | (none, w) => { t with status := .dead, world := w }

/-- One iteration of the loop (DeviceRpcHandler.kt:106–115). -/
def iterate (t : RpcThread W) : RpcThread W :=
  if t.interrupt then
    { t with status := .closed }
  else
    let (first, socket) := Server.listen t.rpcServer
    if !first.success then
      { t with rpcServer := socket }
    else if first.more then
      let (second, socket') := Server.listen socket
      let rpcName := charset first.data
      let rpc := rpcRegistry rpcs rpcName
      let trace := match first.frame with
        | some name => t.trace.lookup name second.frame rpc.isSome
        | none => t.trace
      handleRpc { t with rpcServer := socket', trace } rpc second.data
    else
      -- the last frame of a request is dropped without a reply
      { t with rpcServer := socket }

/-- What can happen next. -/
inductive Action (W : Type u) where
  /-- A client's request arrives. -/
  | deliver (r : Request)
  /-- `destroy` sets the interrupt flag. -/
  | interrupt
  /-- The phone changes by itself. -/
  | world (w : W)
  /-- The thread runs one iteration. -/
  | iterate

/-- The thread among its clients. -/
def machine : Machine (RpcThread W) (Action W) where
  step t
    | .deliver r => some { t with rpcServer := t.rpcServer.deliver r }
    | .interrupt => some { t with interrupt := true }
    | .world w => some { t with world := w }
    | .iterate => if t.status = .looping then some (iterate charset rpcs t) else none

end Loop

/-! ## One reply per request -/

/-- At the loop head every completely received request has exactly one reply and
the socket can receive; and the thread is at its loop head unless interrupted. -/
structure OneReply (t : RpcThread W) : Prop where
  alive : t.interrupt = false → t.status = .looping
  replied : t.status = .looping → t.rpcServer.replies.length = t.rpcServer.received.length
  canReceive : t.status = .looping → t.rpcServer.recv ≠ .illegal

/-- The condition on one step: when an iteration takes up a frame, another frame
of the same request follows it, and the RPC it names, if there is one, returns a
reply for that second frame. -/
def Answerable (charset : Bytes → String) (rpcs : List (Rpc W)) (t : RpcThread W) :
    Action W → Prop
  | .iterate => t.interrupt = false →
    match t.rpcServer.upcoming with
    | [] => True
    | [_] => False
    | name :: payload :: _ => ∀ rpc, rpcRegistry rpcs (charset name) = some rpc →
        (rpc.execute t.world payload).1 ≠ none
  | _ => True

/-- The thread once name frame `f` and payload frame `g` were received and looked up. -/
def lookedUp (t : RpcThread W) (socket : RepSocket Reply) (f g : Frame) (found : Bool) :
    RpcThread W :=
  { t with rpcServer := socket, trace := t.trace.lookup f (some g) found }

section Iterate

variable {charset : Bytes → String} {rpcs : List (Rpc W)} {t : RpcThread W}

theorem iterate_interrupted (h : t.interrupt = true) :
    iterate charset rpcs t = { t with status := .closed } := by
  simp [iterate, h]

/-- With nothing to receive, an iteration changes nothing. -/
theorem iterate_idle (hi : t.interrupt = false) (h : t.rpcServer.upcoming = []) :
    iterate charset rpcs t = t := by
  unfold iterate
  rw [if_neg (by simp [hi]), Server.listen_none h]
  rfl

/-- The last frame of a request, taken as a name, is dropped: `first.more` is false. -/
theorem iterate_single (charset : Bytes → String) (rpcs : List (Rpc W)) {name : Bytes}
    (hi : t.interrupt = false)
    (h : t.rpcServer.upcoming = [name]) :
    ∃ f socket, iterate charset rpcs t = { t with rpcServer := socket } ∧
      t.rpcServer.Received f [] socket := by
  obtain ⟨f, socket, -, hl, hrec⟩ := Server.listen_some h
  exact ⟨f, socket, by simp [iterate, hi, hl], hrec⟩

/-- Two frames of one request are taken as a name and its payload. -/
theorem iterate_call (charset : Bytes → String) (rpcs : List (Rpc W)) {name payload : Bytes}
    {rest : List Bytes} (hi : t.interrupt = false)
    (h : t.rpcServer.upcoming = name :: payload :: rest) :
    ∃ f socket g socket', f.bytes = name ∧ g.bytes = payload ∧
      t.rpcServer.Received f (payload :: rest) socket ∧ socket.Received g rest socket' ∧
      iterate charset rpcs t =
        handleRpc (t.lookedUp socket' f g (rpcRegistry rpcs (charset name)).isSome)
          (rpcRegistry rpcs (charset name)) payload := by
  obtain ⟨f, socket, hf, hl, hrec⟩ := Server.listen_some h
  have hup : socket.upcoming = payload :: rest := hrec.upcoming (List.cons_ne_nil _ _)
  obtain ⟨g, socket', hg, hl', hrec'⟩ := Server.listen_some hup
  exact ⟨f, socket, g, socket', hf, hg, hrec, hrec', by simp [iterate, hi, hl, hl', lookedUp]⟩

end Iterate

section HandleRpc

variable {t : RpcThread W} {rpc : Option (Rpc W)} {data : Bytes}

@[simp] theorem handleRpc_interrupt : (handleRpc t rpc data).interrupt = t.interrupt := by
  unfold handleRpc
  split
  · rfl
  · split <;> rfl

/-- An RPC that returns leaves the thread in its loop, owing nothing. -/
theorem handleRpc_returns (h : ∀ r, rpc = some r → (r.execute t.world data).1 ≠ none) :
    (handleRpc t rpc data).status = t.status ∧ ¬ (handleRpc t rpc data).rpcServer.Owing := by
  unfold handleRpc
  split
  · exact ⟨rfl, Server.sendResponse_not_owing _ _⟩
  · next r =>
    split
    · exact ⟨rfl, Server.sendResponse_not_owing _ _⟩
    · next hx => exact absurd (congrArg Prod.fst hx) (h r rfl)

/-- An RPC that throws ends the thread. -/
theorem handleRpc_throws {r : Rpc W} (hr : rpc = some r)
    (h : (r.execute t.world data).1 = none) : (handleRpc t rpc data).status = .dead := by
  subst hr
  unfold handleRpc
  dsimp only
  split
  · next hx => cases h.symm.trans (congrArg Prod.fst hx)
  · rfl

end HandleRpc

/-- `OneReply` in terms of the reply that is owed. -/
theorem oneReply_iff_not_owing {t : RpcThread W} :
    OneReply t ↔ (t.interrupt = false → t.status = .looping) ∧
      (t.status = .looping → ¬ t.rpcServer.Owing) := by
  constructor
  · intro h
    exact ⟨h.alive, fun hs => t.rpcServer.not_owing_iff.mpr (h.replied hs)⟩
  · rintro ⟨halive, howing⟩
    exact ⟨halive, fun hs => (RepSocket.settled_iff.mpr (howing hs)).1,
      fun hs => (RepSocket.settled_iff.mpr (howing hs)).2⟩

theorem oneReply_init (w : W) : OneReply (init w) :=
  oneReply_iff_not_owing.mpr ⟨fun _ => rfl, fun _ => id⟩

/-- **One iteration**: from a good loop head the next loop head is good exactly
when the step is answerable. -/
theorem oneReply_step {charset : Bytes → String} {rpcs : List (Rpc W)} (t : RpcThread W)
    (a : Action W) (u : RpcThread W) (h : OneReply t)
    (hstep : (machine charset rpcs).step t a = some u) :
    OneReply u ↔ Answerable charset rpcs t a := by
  rw [oneReply_iff_not_owing] at h ⊢
  cases a with
  | deliver r =>
    cases hstep
    exact ⟨fun _ => trivial, fun _ => h⟩
  | interrupt =>
    cases hstep
    exact ⟨fun _ => trivial, fun _ => ⟨fun hi => (nomatch hi), h.2⟩⟩
  | world w =>
    cases hstep
    exact ⟨fun _ => trivial, fun _ => h⟩
  | iterate =>
    simp only [machine, Option.ite_none_right_eq_some, Option.some.injEq] at hstep
    obtain ⟨hloop, rfl⟩ := hstep
    have hidle := h.2 hloop
    cases hi : t.interrupt with
    | true =>
      rw [iterate_interrupted hi]
      exact ⟨fun _ hf => absurd (hi.symm.trans hf) (by decide),
        fun _ => ⟨fun hf => absurd (hi.symm.trans hf) (by decide), fun hs => (nomatch hs)⟩⟩
    | false =>
      show _ ↔ (t.interrupt = false → _)
      rw [forall_prop_of_true hi]
      -- the frames that the iteration finds: none, a name alone, or a name and a payload
      match hup : t.rpcServer.upcoming with
      | [] =>
        rw [iterate_idle hi hup]
        exact ⟨fun _ => trivial, fun _ => h⟩
      | [name] =>
        obtain ⟨f, socket, hit, hrec⟩ := iterate_single charset rpcs hi hup
        rw [hit]
        exact ⟨fun hu => hu.2 hloop (hrec.owing.mpr rfl), False.elim⟩
      | name :: payload :: rest =>
        obtain ⟨f, socket, g, socket', -, -, -, -, hit⟩ :=
          iterate_call charset rpcs hi hup
        rw [hit, handleRpc_interrupt]
        generalize hv : t.lookedUp socket' f g (rpcRegistry rpcs (charset name)).isSome = v
        have hvi : v.interrupt = false := by rw [← hv]; exact hi
        have hvl : v.status = .looping := by rw [← hv]; exact hloop
        have hvw : t.world = v.world := by rw [← hv]; rfl
        rw [hvw]
        constructor
        · -- a thread that is alive has not met an exception
          rintro ⟨halive, -⟩ r hr hnone
          cases (handleRpc_throws hr hnone).symm.trans (halive hvi)
        · intro hret
          obtain ⟨hs, ho⟩ := handleRpc_returns hret
          exact ⟨fun _ => hs.trans hvl, fun _ => ho⟩

/-- **Exactly when the device RPC server answers every request and stays alive**:
a run keeps `OneReply` at every loop head if and only if each name frame taken up
is followed by a payload frame of its request and names no RPC that throws on it. -/
theorem oneReply_iff (charset : Bytes → String) (rpcs : List (Rpc W)) (w : W)
    (as : List (Action W)) :
    (machine charset rpcs).Always OneReply (init w) as ↔
      (machine charset rpcs).Guarded (Answerable charset rpcs) (init w) as :=
  Machine.always_iff_guarded (I := fun _ => True) (fun _ _ _ _ _ => trivial)
    (fun t a u _ => oneReply_step t a u) as trivial (oneReply_init w)

/-- The registry of the two runs below: one RPC, which always succeeds. -/
def reboot : Rpc Unit := ⟨"Reboot", fun w _ => (some [], w)⟩

/-- `String(bytes, ZMQ.CHARSET)` on ASCII text. -/
def asciiCharset (bytes : Bytes) : String := .ofList (bytes.map fun b => Char.ofNat b.toNat)

/-- A request of the single frame `Reboot` is received and never answered. -/
theorem oneReply_fails :
    ¬ ∀ as : List (Action Unit),
      (machine asciiCharset [reboot]).Always OneReply (init ()) as := by
  intro h
  have hrun := h [.deliver ⟨ascii "Reboot", []⟩, .iterate]
  have hlast : OneReply _ := (hrun.2 _ rfl).2 _ rfl
  exact absurd (hlast.replied rfl) (by decide)

/-! ## After a missed reply -/

/-- The thread owes a reply at its loop head, or its loop has ended. -/
def Wedged (t : RpcThread W) : Prop := t.status = .looping → t.rpcServer.Owing

/-- A wedged thread stays wedged, and completes no reply. -/
theorem wedged_step {charset : Bytes → String} {rpcs : List (Rpc W)} {t u : RpcThread W}
    {a : Action W} (h : t.Wedged) (hstep : (machine charset rpcs).step t a = some u) :
    u.Wedged ∧ u.rpcServer.replies = t.rpcServer.replies := by
  cases a with
  | deliver r =>
    cases hstep
    exact ⟨h, rfl⟩
  | interrupt =>
    cases hstep
    exact ⟨h, rfl⟩
  | world w =>
    cases hstep
    exact ⟨h, rfl⟩
  | iterate =>
    simp only [machine, Option.ite_none_right_eq_some, Option.some.injEq] at hstep
    obtain ⟨hloop, rfl⟩ := hstep
    cases hi : t.interrupt with
    | true =>
      rw [iterate_interrupted hi]
      exact ⟨fun hs => (nomatch hs), rfl⟩
    | false =>
      -- while a reply is owed `poll` reports nothing
      rw [iterate_idle hi (RepSocket.upcoming_of_owing (h hloop))]
      exact ⟨h, rfl⟩

/-- **A missed reply is the last**: from a wedged state no run answers anybody. -/
theorem wedged_run {charset : Bytes → String} {rpcs : List (Rpc W)} {t u : RpcThread W}
    {as : List (Action W)} (h : t.Wedged) (hrun : (machine charset rpcs).exec t as = some u) :
    u.rpcServer.replies = t.rpcServer.replies := by
  have hinv := Machine.exec_invariant
    (P := fun v => v.Wedged ∧ v.rpcServer.replies = t.rpcServer.replies)
    (fun v a w hv hs =>
      let ⟨hw, hr⟩ := wedged_step hv.1 hs
      ⟨hw, hr.trans hv.2⟩) ⟨h, rfl⟩ hrun
  exact hinv.2

/-- What an unanswerable iteration leaves is wedged: by `wedged_run` the server is
lost to every later client. -/
theorem wedged_of_not_answerable {charset : Bytes → String} {rpcs : List (Rpc W)}
    {t u : RpcThread W} (h : OneReply t) (hna : ¬ Answerable charset rpcs t .iterate)
    (hstep : (machine charset rpcs).step t .iterate = some u) : u.Wedged := by
  have hnot : ¬ OneReply u := fun hu => hna ((oneReply_step t .iterate u h hstep).mp hu)
  intro hloop
  by_contra howing
  exact hnot (oneReply_iff_not_owing.mpr ⟨fun _ => hloop, fun _ => howing⟩)

end RpcThread

/-! ## An RPC that throws -/

/-- The phone as `PhoneManager` sees it: `TelephonyManager.getImei` of the two slots
(`none`: null). -/
structure Phone where
  imei : Fin 2 → Option String

/-- `PhoneManager.getImei` (PhoneManager.kt:33–45): the message builder does not take
a null element. -/
def PhoneManager.getImei (phone : Phone) : Option (List String) :=
  [phone.imei 0, phone.imei 1].mapM id

/-- `GetImeiNumbersRpc` (GetImeiNumbersRpc.kt), over `Common.Empty.parseFrom` and the
serialization of its reply. -/
def GetImeiNumbersRpc (parseFrom : Bytes → Bool) (toByteArray : List String → Bytes) :
    Rpc Phone where
  name := "GetImeiNumbers"
  execute phone req :=
    (if parseFrom req then (PhoneManager.getImei phone).map toByteArray else none, phone)

/-- The RPC returns exactly when its payload parses and both slots have an IMEI. -/
theorem getImei_returns_iff {parseFrom : Bytes → Bool} {toByteArray : List String → Bytes}
    {phone : Phone} {req : Bytes} :
    ((GetImeiNumbersRpc parseFrom toByteArray).execute phone req).1 ≠ none ↔
      parseFrom req = true ∧ ∀ slot, phone.imei slot ≠ none := by
  rw [Fin.forall_fin_two]
  cases hparse : parseFrom req <;> cases h0 : phone.imei 0 <;> cases h1 : phone.imei 1 <;>
    simp [GetImeiNumbersRpc, PhoneManager.getImei, hparse, h0, h1]

/-- On a phone with a free slot a well-formed `GetImeiNumbers` request ends the thread. -/
theorem RpcThread.getImei_kills {parseFrom : Bytes → Bool} {toByteArray : List String → Bytes}
    {charset : Bytes → String} {rpcs : List (Rpc Phone)} {t : RpcThread Phone}
    {name payload : Bytes} {slot : Fin 2} (hi : t.interrupt = false)
    (hup : t.rpcServer.upcoming = [name, payload])
    (hrpc : rpcRegistry rpcs (charset name) = some (GetImeiNumbersRpc parseFrom toByteArray))
    (hslot : t.world.imei slot = none) : (iterate charset rpcs t).status = .dead := by
  obtain ⟨f, socket, g, socket', -, -, -, -, hit⟩ :=
    iterate_call charset rpcs hi hup
  rw [hit]
  refine handleRpc_throws hrpc (not_not.mp fun hret => ?_)
  exact (getImei_returns_iff.mp hret).2 slot hslot

end Anx.Comms
