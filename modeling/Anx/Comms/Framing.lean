import Anx.Lib.RepSocket

/-!
# Request framing

Both RPC servers read a request as an RPC name followed by a payload. A `Trace`
records, for one server, every frame it took as an RPC name and every RPC call
it made with the payload frame it handed over. `Trace.WellFramed` says that the
reading was aligned with the requests: names are first frames, payloads the
second frame of the same request, and no request is read twice.

`Aligned` is the invariant that carries it through a run: what has been read is well
framed, and the requests still to be read are short enough. Its lemmas are the
socket operations that the servers' loops are made of.
-/

namespace Anx.Comms

open Anx.Lib

universe u

/-- An RPC call: the frame taken as the name, and the frame whose content was
handed over as payload (`none`: content that came from no frame). -/
structure Call where
  name : Frame
  payload : Option Frame
deriving DecidableEq

/-- What a server has read frames as. -/
structure Trace where
  names : List Frame
  calls : List Call
deriving DecidableEq

/-- The trace of a server that has read nothing. -/
def Trace.empty : Trace := ⟨[], []⟩

/-- A name was looked up; the RPC found, if any, is given the payload. -/
def Trace.lookup (tr : Trace) (name : Frame) (payload : Option Frame) (found : Bool) : Trace where
  names := tr.names ++ [name]
  calls := if found then tr.calls ++ [⟨name, payload⟩] else tr.calls

/-- `f` is frame `k` of one of `requests`. -/
def IsFrame (requests : List Request) (k : Nat) (f : Frame) : Prop :=
  f.index = k ∧ ∃ r, requests[f.request]? = some r ∧ r.frames[k]? = some f.bytes

/-- The server's reading is aligned with `requests`. -/
structure Trace.WellFramed (requests : List Request) (tr : Trace) : Prop where
  /-- Every name is frame 0 of some request. -/
  name : ∀ f ∈ tr.names, IsFrame requests 0 f
  /-- Every payload is frame 1 of the request its name is from. -/
  payload : ∀ c ∈ tr.calls, ∃ g, c.payload = some g ∧ IsFrame requests 1 g ∧
    g.request = c.name.request ∧ c.name ∈ tr.names
  /-- No two names are from one request. -/
  nodupNames : (tr.names.map Frame.request).Nodup
  /-- One request makes at most one call. -/
  nodupCalls : (tr.calls.map fun c => c.name.request).Nodup

theorem IsFrame.append {requests : List Request} {k : Nat} {f : Frame}
    (h : IsFrame requests k f) (more : List Request) : IsFrame (requests ++ more) k f := by
  obtain ⟨hk, r, hr, hb⟩ := h
  refine ⟨hk, r, ?_, hb⟩
  rw [List.getElem?_append_left (List.getElem?_eq_some_iff.mp hr).1]
  exact hr

theorem Trace.WellFramed.append {requests : List Request} {tr : Trace}
    (h : tr.WellFramed requests) (more : List Request) : tr.WellFramed (requests ++ more) where
  name f hf := (h.name f hf).append more
  payload c hc :=
    let ⟨g, hg, hframe, hsame⟩ := h.payload c hc
    ⟨g, hg, hframe.append more, hsame⟩
  nodupNames := h.nodupNames
  nodupCalls := h.nodupCalls

/-- A received frame is where its position says. -/
theorem isFrame_of_received {R : Type u} {s t : RepSocket R} {f : Frame} {rest : List Bytes}
    (h : s.Received f rest t) : IsFrame s.delivered s.nextIndex f := by
  obtain ⟨r, hr, hdrop⟩ := h.frames
  refine ⟨h.index, r, h.request ▸ hr, ?_⟩
  have h0 : (r.frames.drop s.nextIndex)[0]? = some f.bytes := by rw [hdrop]; rfl
  simpa using h0

section Push

variable {requests : List Request} {tr : Trace} {f g : Frame} {n : Nat}

/-- A name from a request that no earlier name is from. -/
theorem Trace.WellFramed.pushName (h : tr.WellFramed requests)
    (hlt : ∀ f' ∈ tr.names, f'.request < n) (hf : IsFrame requests 0 f) (hn : f.request = n) :
    Trace.WellFramed requests ⟨tr.names ++ [f], tr.calls⟩ where
  name f' hf' := by
    rcases List.mem_append.mp hf' with hold | hnew
    · exact h.name f' hold
    · exact List.mem_singleton.mp hnew ▸ hf
  payload c hc :=
    let ⟨g, hg, hframe, hsame, hname⟩ := h.payload c hc
    ⟨g, hg, hframe, hsame, List.mem_append_left _ hname⟩
  nodupNames := by
    rw [List.map_append, List.nodup_append]
    refine ⟨h.nodupNames, by simp, ?_⟩
    intro a ha b hb
    obtain ⟨f', hf', rfl⟩ := List.mem_map.mp ha
    rw [List.mem_singleton.mp hb, hn]
    exact Nat.ne_of_lt (hlt f' hf')
  nodupCalls := h.nodupCalls

/-- A name and the payload after it, from a request that no earlier name is from. -/
theorem Trace.WellFramed.pushCall (h : tr.WellFramed requests)
    (hlt : ∀ f' ∈ tr.names, f'.request < n) (hf : IsFrame requests 0 f) (hn : f.request = n)
    (hg : IsFrame requests 1 g) (hgn : g.request = n) :
    Trace.WellFramed requests ⟨tr.names ++ [f], tr.calls ++ [⟨f, some g⟩]⟩ where
  name := (h.pushName hlt hf hn).name
  payload c hc := by
    rcases List.mem_append.mp hc with hold | hnew
    · exact (h.pushName hlt hf hn).payload c hold
    · cases List.mem_singleton.mp hnew
      exact ⟨g, rfl, hg, hgn.trans hn.symm, by simp⟩
  nodupNames := (h.pushName hlt hf hn).nodupNames
  nodupCalls := by
    rw [List.map_append, List.nodup_append]
    refine ⟨h.nodupCalls, by simp, ?_⟩
    intro a ha b hb
    obtain ⟨c, hc, rfl⟩ := List.mem_map.mp ha
    obtain ⟨-, -, -, -, hname⟩ := h.payload c hc
    rw [List.mem_singleton.mp hb]
    show c.name.request ≠ f.request
    rw [hn]
    exact Nat.ne_of_lt (hlt c.name hname)

end Push

theorem wellFramed_empty (requests : List Request) : Trace.empty.WellFramed requests where
  name _ hf := (nomatch hf)
  payload _ hc := (nomatch hc)
  nodupNames := List.nodup_nil
  nodupCalls := List.nodup_nil

/-! ## The invariant of a server's reading -/

/-- The reading so far is well framed, and what is still in the inbox satisfies
`short`: the bound on the number of frames that keeps it so. -/
structure Aligned {R : Type u} (short : Request → Prop) (socket : RepSocket R) (tr : Trace) :
    Prop where
  framed : tr.WellFramed socket.delivered
  begun : ∀ f ∈ tr.names, f.request < socket.begun
  inbox : ∀ r ∈ socket.inbox, short r

namespace Aligned

variable {R : Type u} {short : Request → Prop} {socket socket' : RepSocket R} {tr : Trace}
  {f : Frame} {rest : List Bytes}

theorem init : Aligned short (.init : RepSocket R) .empty :=
  ⟨wellFramed_empty _, fun _ hf => (nomatch hf), fun _ hr => (nomatch hr)⟩

theorem deliver (h : Aligned short socket tr) {r : Request} (hr : short r) :
    Aligned short (socket.deliver r) tr where
  framed := by
    rw [RepSocket.delivered_deliver]
    exact h.framed.append [r]
  begun := h.begun
  inbox r' hr' := by
    rcases List.mem_append.mp hr' with hold | hnew
    · exact h.inbox r' hold
    · exact List.mem_singleton.mp hnew ▸ hr

theorem inbox_received (h : Aligned short socket tr) (hrec : socket.Received f rest socket') :
    ∀ r ∈ socket'.inbox, short r := by
  intro r hr
  rw [hrec.inbox] at hr
  split at hr
  · exact h.inbox r (List.mem_of_mem_tail hr)
  · exact h.inbox r hr

/-- Receiving a frame without looking it up. -/
theorem received (h : Aligned short socket tr) (hrec : socket.Received f rest socket') :
    Aligned short socket' tr where
  framed := hrec.delivered ▸ h.framed
  begun f' hf' := hrec.begun ▸ Nat.lt_of_lt_of_le (h.begun f' hf') socket.begun_le
  inbox := h.inbox_received hrec

/-- Sending a reply. -/
theorem replied (h : Aligned short socket tr) {ps : List R} (hrep : socket.Replied ps socket') :
    Aligned short socket' tr where
  framed := hrep.delivered ▸ h.framed
  begun := hrep.begun ▸ h.begun
  inbox := hrep.inbox ▸ h.inbox

/-- Taking the first frame of a request as a name. -/
theorem took (h : Aligned short socket tr) (hup : socket.upcoming = f.bytes :: rest)
    (h0 : socket.nextIndex = 0) (hrec : socket.Received f rest socket') :
    Aligned short socket' ⟨tr.names ++ [f], tr.calls⟩ where
  framed := by
    -- at a boundary every request begun is served, so no name is from this one
    have hlt : ∀ f' ∈ tr.names, f'.request < socket.served.length :=
      (socket.boundary hup h0).1 ▸ h.begun
    have hframe : IsFrame socket.delivered 0 f := h0 ▸ isFrame_of_received hrec
    rw [hrec.delivered]
    exact h.framed.pushName hlt hframe hrec.request
  begun f' hf' := by
    rw [hrec.begun]
    rcases List.mem_append.mp hf' with hold | hnew
    · exact Nat.lt_of_lt_of_le (h.begun f' hold) socket.begun_le
    · rw [List.mem_singleton.mp hnew, hrec.request]
      exact Nat.lt_succ_self _
  inbox := h.inbox_received hrec

/-- Taking the first two frames of a request as a name and its payload. -/
theorem calls (h : Aligned short socket tr) {g : Frame} {between : RepSocket R}
    (hup : socket.upcoming = f.bytes :: g.bytes :: rest) (h0 : socket.nextIndex = 0)
    (hrec : socket.Received f (g.bytes :: rest) between)
    (hrec' : between.Received g rest socket') :
    Aligned short socket' ⟨tr.names ++ [f], tr.calls ++ [⟨f, some g⟩]⟩ where
  framed := by
    have hlt : ∀ f' ∈ tr.names, f'.request < socket.served.length :=
      (socket.boundary hup h0).1 ▸ h.begun
    have hf : IsFrame socket.delivered 0 f := h0 ▸ isFrame_of_received hrec
    have hnext : between.nextIndex = 1 := by rw [hrec.next (List.cons_ne_nil _ _), h0]
    have hg : IsFrame between.delivered 1 g := hnext ▸ isFrame_of_received hrec'
    have hgn : g.request = socket.served.length := hrec'.request.trans (by rw [hrec.served])
    rw [hrec.delivered] at hg
    rw [hrec'.delivered, hrec.delivered]
    exact h.framed.pushCall hlt hf hrec.request hg hgn
  begun := ((h.took hup h0 hrec).received hrec').begun
  inbox := ((h.took hup h0 hrec).received hrec').inbox

/-- A lookup that may fail: the payload frame is received all the same. -/
theorem lookup (h : Aligned short socket tr) {g : Frame} {between : RepSocket R}
    (hup : socket.upcoming = f.bytes :: g.bytes :: rest) (h0 : socket.nextIndex = 0)
    (hrec : socket.Received f (g.bytes :: rest) between)
    (hrec' : between.Received g rest socket') (found : Bool) :
    Aligned short socket' (tr.lookup f (some g) found) := by
  cases found with
  | true => exact h.calls hup h0 hrec hrec'
  | false => exact (h.took hup h0 hrec).received hrec'

end Aligned

end Anx.Comms
