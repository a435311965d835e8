import Anx.Comms.Messages
import Anx.Lib.Calls
import Anx.Lib.Lines
import Mathlib.Logic.Relation

/-!
# Changing the WiFi network

`WiFiManager.connectToWifi` (WiFiManager.kt:33–74) removes all configured networks, one by
one, adds the requested one and enables it. The system's `WifiManager` may let any of these
calls fail or throw.

- `WifiConfiguration`, `WifiManager`: the configured networks; `Call`, `Fate`, `platform`:
  the calls of the system, how each one ends and what it does;
- `removeAllNetworks`, `connect`, `connectToWifi`, `execute`: the code;
- `connectCalls`, `connectBody_makes`: the calls that it makes, in order;
- `AllOrNothing`: a failure leaves the networks, and a success connects to the new one;
- `KeepsNetworks`: no call changes the networks before the first one that throws;
- `allOrNothing_iff`: **a change is all or nothing exactly if a call throws before the
  networks have changed, or none throws and the new network is added and enabled;**
- `online_of_requests`: requests that are all or nothing do not cut the device off.
-/

namespace Anx.Device

open Anx.Lib Anx.Comms

/-! ## The system -/

/-- A configured network. -/
structure WifiConfiguration where
  networkId : Nat
  SSID : Text
  preSharedKey : Text
  enabled : Bool
deriving DecidableEq

/-- The system's `WifiManager`: an id is given once. -/
structure WifiManager where
  isWifiEnabled : Bool
  configuredNetworks : List WifiConfiguration
  nextId : Nat
  fresh : ∀ i ∈ configuredNetworks, i.networkId < nextId

/-- A call. Those that are made several times have the number of the round, or whether it is
the second time. -/
inductive Call where
  | isWifiEnabled (again : Bool)
  | setWifiEnabled
  | configuredNetworks
  | removeNetwork (round : Nat) (netId : Nat)
  | saveConfiguration (round : Nat)
  | addNetwork (SSID preSharedKey : Text)
  | disconnect
  | enableNetwork (netId : Int)
  | reconnect
deriving DecidableEq

/-- How a call ends: it returns what says that it failed (`false`, `null` or -1) and does
nothing, or it throws with a message, if the exception has one. -/
inductive Fate where
  | succeeds
  | fails
  | throws (message : Option Text)
deriving DecidableEq

/-- The calls that leave the networks. -/
def Call.IsFirst : Call → Prop
  | .isWifiEnabled _ | .setWifiEnabled | .configuredNetworks => True
  | _ => False

namespace WifiManager

/-- `removeNetwork`. -/
def removeNetwork (s : WifiManager) (netId : Nat) : WifiManager :=
  { s with
    configuredNetworks := s.configuredNetworks.filter fun i => i.networkId ≠ netId
    fresh := fun i hi => s.fresh i (List.mem_of_mem_filter hi) }

/-- `addNetwork`. -/
def addNetwork (s : WifiManager) (SSID preSharedKey : Text) : WifiManager where
  isWifiEnabled := s.isWifiEnabled
  configuredNetworks := s.configuredNetworks ++ [⟨s.nextId, SSID, preSharedKey, false⟩]
  nextId := s.nextId + 1
  fresh i hi := by
    rcases List.mem_append.mp hi with hi | hi
    · exact Nat.lt_succ_of_lt (s.fresh i hi)
    · rw [List.mem_singleton.mp hi]
      exact Nat.lt_succ_self _

/-- `enableNetwork(netId, true)`: the other networks are disabled. -/
def enableNetwork (s : WifiManager) (netId : Int) : WifiManager :=
  if ∃ i ∈ s.configuredNetworks, (i.networkId : Int) = netId then
    { s with
      configuredNetworks := s.configuredNetworks.map fun i =>
        { i with enabled := (i.networkId : Int) = netId }
      fresh := fun i hi => by
        obtain ⟨j, hj, rfl⟩ := List.mem_map.mp hi
        exact s.fresh j hj }
  else s

/-- What a call does that succeeds. -/
def perform (s : WifiManager) : Call → WifiManager
  | .setWifiEnabled => { s with isWifiEnabled := true }
  | .removeNetwork _ netId => s.removeNetwork netId
  | .addNetwork SSID preSharedKey => s.addNetwork SSID preSharedKey
  | .enableNetwork netId => s.enableNetwork netId
  | .isWifiEnabled _ | .configuredNetworks | .saveConfiguration _ | .disconnect | .reconnect => s

end WifiManager

/-! ## The code -/

/-- Code that calls the system; an exception is its message. -/
abbrev Android (α : Type) : Type := EStateM (Option Text) WifiManager α

/-- The message of the exception that going through a list that is null throws. -/
def nullList : Text :=
  ("Attempt to invoke interface method 'java.util.Iterator java.util.List.iterator()' " ++
    "on a null object reference").toList

section

variable (fate : Call → Fate)

/-- A call of the system; whether it succeeds. -/
def call (c : Call) : Android Bool := fun s =>
  match fate c with
  | .succeeds => .ok true (s.perform c)
  | .fails => .ok false s
  | .throws message => .error message s

/-- `isWifiEnabled`, for the first or the second time. -/
def isWifiEnabled (again : Bool) : Android Bool := do
  let _ ← call fate (.isWifiEnabled again)
  return (← get).isWifiEnabled

/-- The networks that `for` goes through; it throws for a null list. -/
def configuredNetworks : Android (List WifiConfiguration) := do
  if ← call fate .configuredNetworks then return (← get).configuredNetworks
  else throw (some nullList)

/-- The loop of `removeAllNetworks`, from a round on. -/
def removeNetworks : Nat → List WifiConfiguration → Android Unit
  | _, [] => pure ()
  | round, i :: list => do
    let _ ← call fate (.removeNetwork round i.networkId)
    let _ ← call fate (.saveConfiguration round)
    removeNetworks (round + 1) list

/-- `removeAllNetworks`. -/
def removeAllNetworks : Android Unit := do
  let list ← configuredNetworks fate
  removeNetworks fate 0 list

/-- `addNetwork`: the id, or -1. -/
def addNetwork (SSID preSharedKey : Text) : Android Int := do
  let netId := (← get).nextId
  if ← call fate (.addNetwork SSID preSharedKey) then return netId else return -1

/-- `String.format("\"%s\"", text)`. -/
def quote (text : Text) : Text := '"' :: (text ++ ['"'])

/-- What stands in the `try` of `connect`. -/
def connectBody (networkSSID networkPassword : Text) : Android Result := do
  if !(← isWifiEnabled fate false) then
    let _ ← call fate .setWifiEnabled
  let _ ← isWifiEnabled fate true
  removeAllNetworks fate
  let netId ← addNetwork fate (quote networkSSID) (quote networkPassword)
  let _ ← call fate .disconnect
  let _ ← call fate (.enableNetwork netId)
  let _ ← call fate .reconnect
  return ⟨true, []⟩

/-- `connect`. -/
def connect (networkSSID networkPassword : Text) (s : WifiManager) : Result × WifiManager :=
  match connectBody fate networkSSID networkPassword s with
  | .ok result t => (result, t)
  | .error message t => (⟨false, message.getD "null".toList⟩, t)

/-- `connectToWifi`; `none` is `null`. -/
def connectToWifi (networkSSID networkPassword : Option Text) (s : WifiManager) :
    Result × WifiManager :=
  let networkSSID := networkSSID.getD []
  let networkPassword := networkPassword.getD []
  if networkSSID = [] ∨ networkPassword = [] then
    (⟨false, "Empty values are not allowed".toList⟩, s)
  else connect fate networkSSID networkPassword s

/-- `SetWifiRpc.execute`. -/
def execute (ssid password : Text) (s : WifiManager) : Messages.StdResponse × WifiManager :=
  let (wifiStatus, t) := connectToWifi fate (some ssid) (some password) s
  (wifiStatus.toStdResponse, t)

end

/-! ## The calls that it makes -/

/-- What the calls throw and do. -/
def platform (fate : Call → Fate) : Calls Call (Option Text) WifiManager where
  thrown c :=
    match fate c with
    | .throws message => some message
    | .fails => if c = .configuredNetworks then some (some nullList) else none
    | .succeeds => none
  after c s := if fate c = .succeeds then s.perform c else s

/-- The calls of the loop. -/
def removeCalls : Nat → List WifiConfiguration → List Call
  | _, [] => []
  | round, i :: list =>
    .removeNetwork round i.networkId :: .saveConfiguration round :: removeCalls (round + 1) list

/-- The id that `addNetwork` returns. -/
def newId (fate : Call → Fate) (s : WifiManager) (networkSSID networkPassword : Text) : Int :=
  if fate (.addNetwork (quote networkSSID) (quote networkPassword)) = .succeeds then s.nextId
  else -1

/-- The calls before the loop. -/
def firstCalls (s : WifiManager) : List Call :=
  .isWifiEnabled false :: ((if s.isWifiEnabled then [] else [.setWifiEnabled]) ++
    [.isWifiEnabled true, .configuredNetworks])

/-- The calls after the loop. -/
def lastCalls (fate : Call → Fate) (s : WifiManager) (networkSSID networkPassword : Text) :
    List Call :=
  [.addNetwork (quote networkSSID) (quote networkPassword), .disconnect,
    .enableNetwork (newId fate s networkSSID networkPassword), .reconnect]

/-- All calls, as long as none throws. -/
def connectCalls (fate : Call → Fate) (s : WifiManager) (networkSSID networkPassword : Text) :
    List Call :=
  firstCalls s ++ (removeCalls 0 s.configuredNetworks ++
    lastCalls fate s networkSSID networkPassword)

variable {fate : Call → Fate} {s t : WifiManager}

theorem after_of_succeeds {c : Call} (h : fate c = .succeeds) :
    (platform fate).after c s = s.perform c :=
  if_pos h

theorem after_of_not {c : Call} (h : fate c ≠ .succeeds) : (platform fate).after c s = s :=
  if_neg h

theorem after_eq_self {c : Call} (h : s.perform c = s) : (platform fate).after c s = s := by
  show (if fate c = .succeeds then s.perform c else s) = s
  rw [h, ite_self]

theorem call_makes {c : Call} (h : c ≠ .configuredNetworks) :
    (platform fate).Makes (call fate c) s [c] (decide (fate c = .succeeds)) := by
  simp only [Calls.Makes, Calls.run, call, platform]
  cases fate c <;> simp [h]

/-- A call that changes nothing and the value that is taken from the state after it. -/
theorem read_makes {α : Type} {c : Call} (h : c ≠ .configuredNetworks) (hread : s.perform c = s)
    (value : WifiManager → α) :
    (platform fate).Makes (do let _ ← call fate c; return value (← get)) s [c] (value s) := by
  refine (call_makes h).bind_pure fun t ht => ?_
  have hstate := Calls.run_cons_eq_ok ht
  rw [after_eq_self hread] at hstate
  cases hstate
  rfl

theorem isWifiEnabled_makes (again : Bool) :
    (platform fate).Makes (isWifiEnabled fate again) s [.isWifiEnabled again] s.isWifiEnabled :=
  have hread : Call.isWifiEnabled again ≠ .configuredNetworks := nofun
  read_makes hread rfl _

theorem configuredNetworks_makes :
    (platform fate).Makes (configuredNetworks fate) s [.configuredNetworks]
      s.configuredNetworks := by
  show EStateM.bind _ _ s = _
  cases h : fate .configuredNetworks <;>
    simp [EStateM.bind, call, Calls.run, platform, h] <;> rfl

theorem removeNetworks_makes (round : Nat) (list : List WifiConfiguration) :
    (platform fate).Makes (removeNetworks fate round list) s (removeCalls round list) () := by
  induction list generalizing round s with
  | nil => rfl
  | cons i list ih =>
    have hremove : Call.removeNetwork round i.networkId ≠ .configuredNetworks := nofun
    have hsave : Call.saveConfiguration round ≠ .configuredNetworks := nofun
    exact (call_makes hremove).bind fun _ _ => (call_makes hsave).bind fun _ _ => ih _

theorem addNetwork_makes (SSID preSharedKey : Text) :
    (platform fate).Makes (addNetwork fate SSID preSharedKey) s [.addNetwork SSID preSharedKey]
      (if fate (.addNetwork SSID preSharedKey) = .succeeds then s.nextId else -1) := by
  have hadd : Call.addNetwork SSID preSharedKey ≠ .configuredNetworks := nofun
  have hrest : (platform fate).Makes
      (do if ← call fate (.addNetwork SSID preSharedKey) then return (s.nextId : Int)
          else return -1)
      s [.addNetwork SSID preSharedKey]
      (if fate (.addNetwork SSID preSharedKey) = .succeeds then s.nextId else -1) := by
    refine (call_makes hadd).bind_pure fun t _ => ?_
    by_cases h : fate (.addNetwork SSID preSharedKey) = .succeeds
    · rw [if_pos h, decide_eq_true h]
      rfl
    · rw [if_neg h, decide_eq_false h]
      rfl
  exact hrest

/-- The networks and the next id are the same. -/
def Same (s t : WifiManager) : Prop :=
  t.configuredNetworks = s.configuredNetworks ∧ t.nextId = s.nextId

theorem after_first {c : Call} (hc : c.IsFirst) (h : Same s t) :
    Same s ((platform fate).after c t) := by
  show Same s (if fate c = .succeeds then t.perform c else t)
  split
  · cases c <;> first | exact h | exact hc.elim
  · exact h

theorem isFirst_of_mem {c : Call} (hc : c ∈ firstCalls s) : c.IsFirst := by
  simp only [firstCalls, List.mem_cons, List.mem_append] at hc
  split at hc <;> simp at hc
  · rcases hc with rfl | rfl | rfl <;> trivial
  · rcases hc with rfl | rfl | rfl | rfl <;> trivial

theorem run_first {cs : List Call} (hcs : ∀ c ∈ cs, c.IsFirst) (hsame : Same s t)
    {u : WifiManager} (hrun : (platform fate).run cs t = .ok ⟨⟩ u) : Same s u :=
  Calls.run_ok_invariant (fun c hc _ hv => after_first (hcs c hc) hv) hsame hrun

theorem after_nextId {c : Call} (hc : ∀ SSID preSharedKey, c ≠ .addNetwork SSID preSharedKey) :
    ((platform fate).after c s).nextId = s.nextId := by
  by_cases h : fate c = .succeeds
  · rw [after_of_succeeds h]
    cases c with
    | addNetwork SSID preSharedKey => exact absurd rfl (hc _ _)
    | enableNetwork netId =>
      show (s.enableNetwork netId).nextId = s.nextId
      unfold WifiManager.enableNetwork
      split <;> rfl
    | _ => rfl
  · rw [after_of_not h]

theorem mem_removeCalls {c : Call} {round : Nat} {list : List WifiConfiguration}
    (hc : c ∈ removeCalls round list) :
    ∃ round, (∃ i ∈ list, c = .removeNetwork round i.networkId) ∨ c = .saveConfiguration round := by
  induction list generalizing round with
  | nil => cases hc
  | cons i list ih =>
    rcases List.mem_cons.mp hc with rfl | hc
    · exact ⟨round, .inl ⟨i, List.mem_cons_self, rfl⟩⟩
    rcases List.mem_cons.mp hc with rfl | hc
    · exact ⟨round, .inr rfl⟩
    obtain ⟨round, ⟨j, hj, rfl⟩ | rfl⟩ := ih hc
    · exact ⟨round, .inl ⟨j, List.mem_cons_of_mem _ hj, rfl⟩⟩
    · exact ⟨round, .inr rfl⟩

/-- The calls that come before the new network keep the next id. -/
theorem run_nextId {cs : List Call}
    (hcs : ∀ c ∈ cs, c ∈ firstCalls s ∨ c ∈ removeCalls 0 s.configuredNetworks)
    {u : WifiManager} (hrun : (platform fate).run cs t = .ok ⟨⟩ u) : u.nextId = t.nextId := by
  refine Calls.run_ok_invariant (P := fun v => v.nextId = t.nextId) ?_ rfl hrun
  intro c hc v hv
  refine (after_nextId fun SSID preSharedKey h => ?_).trans hv
  subst h
  rcases hcs _ hc with hc | hc
  · exact isFirst_of_mem hc
  · obtain ⟨round, ⟨i, -, h⟩ | h⟩ := mem_removeCalls hc <;> cases h

/-- **The calls of `connect`**, when it comes to its end. -/
theorem connectBody_makes (networkSSID networkPassword : Text) :
    (platform fate).Makes (connectBody fate networkSSID networkPassword) s
      (connectCalls fate s networkSSID networkPassword) ⟨true, []⟩ := by
  have hcalls : connectCalls fate s networkSSID networkPassword =
      [.isWifiEnabled false] ++ ((if (!s.isWifiEnabled) = true then [.setWifiEnabled] else []) ++
        ([.isWifiEnabled true] ++ ([.configuredNetworks] ++
          (removeCalls 0 s.configuredNetworks ++
            lastCalls fate s networkSSID networkPassword)))) := by
    unfold connectCalls firstCalls
    cases s.isWifiEnabled <;> rfl
  rw [hcalls]
  refine (isWifiEnabled_makes false).bind fun t₁ h₁ => ?_
  refine (call_makes (c := .setWifiEnabled) nofun).ite_bind fun t₂ h₂ => ?_
  refine (isWifiEnabled_makes true).bind fun t₃ h₃ => ?_
  have hsame₃ : Same s t₃ := by
    have hsame₁ := run_first (by simp [Call.IsFirst]) ⟨rfl, rfl⟩ h₁
    have hsame₂ := run_first (by split <;> simp [Call.IsFirst]) hsame₁ h₂
    exact run_first (by simp [Call.IsFirst]) hsame₂ h₃
  have hremove : (platform fate).Makes (removeAllNetworks fate) t₃
      ([.configuredNetworks] ++ removeCalls 0 s.configuredNetworks) () := by
    refine configuredNetworks_makes.bind fun t₄ h₄ => ?_
    rw [hsame₃.1]
    exact removeNetworks_makes _ _
  rw [← List.append_assoc]
  refine hremove.bind fun t₅ h₅ => ?_
  have hnextId : t₅.nextId = s.nextId := by
    refine (run_nextId (s := s) (fun c hc => ?_) h₅).trans hsame₃.2
    rcases List.mem_append.mp hc with hc | hc
    · exact .inl (by simp_all [firstCalls])
    · exact .inr hc
  have hid : newId fate s networkSSID networkPassword =
      newId fate t₅ networkSSID networkPassword := by
    rw [newId, newId, hnextId]
  rw [lastCalls, hid]
  refine (addNetwork_makes _ _).bind fun t₆ _ => ?_
  refine (call_makes (c := .disconnect) nofun).bind fun t₇ _ => ?_
  refine (call_makes (c := .enableNetwork _) nofun).bind fun t₈ _ => ?_
  exact (call_makes (c := .reconnect) nofun).bind_pure fun t₉ _ => rfl

/-! ## What a call does to the networks -/

/-- The ids of the configured networks. -/
def WifiManager.ids (s : WifiManager) : List Nat := s.configuredNetworks.map (·.networkId)

namespace WifiManager

theorem ids_eq (h : t.configuredNetworks = s.configuredNetworks) : t.ids = s.ids :=
  congrArg (List.map WifiConfiguration.networkId) h

theorem lt_of_mem_ids {id : Nat} (h : id ∈ s.ids) : id < s.nextId := by
  obtain ⟨i, hi, rfl⟩ := List.mem_map.mp h
  exact s.fresh i hi

@[simp] theorem mem_ids_removeNetwork {netId id : Nat} :
    id ∈ (s.removeNetwork netId).ids ↔ id ∈ s.ids ∧ id ≠ netId := by
  constructor
  · intro h
    obtain ⟨i, hi, rfl⟩ := List.mem_map.mp h
    obtain ⟨hi, hne⟩ := List.mem_filter.mp hi
    exact ⟨List.mem_map_of_mem hi, of_decide_eq_true hne⟩
  · rintro ⟨h, hne⟩
    obtain ⟨i, hi, rfl⟩ := List.mem_map.mp h
    exact List.mem_map_of_mem (List.mem_filter.mpr ⟨hi, decide_eq_true hne⟩)

@[simp] theorem mem_ids_addNetwork {SSID preSharedKey : Text} {id : Nat} :
    id ∈ (s.addNetwork SSID preSharedKey).ids ↔ id ∈ s.ids ∨ id = s.nextId := by
  simp [ids, addNetwork]

@[simp] theorem ids_enableNetwork (netId : Int) : (s.enableNetwork netId).ids = s.ids := by
  unfold enableNetwork
  split
  · exact List.map_map.trans (List.map_congr_left fun _ _ => rfl)
  · rfl

/-- A network that is not there is not enabled. -/
theorem enableNetwork_eq_self {netId : Int} (h : ∀ id ∈ s.ids, (id : Int) ≠ netId) :
    s.enableNetwork netId = s := by
  refine if_neg fun ⟨i, hi, hid⟩ => ?_
  exact h _ (List.mem_map_of_mem hi) hid

end WifiManager

/-- The calls that `connect` makes from `s`: it removes networks that are there, and enables
one that is not. -/
def Within (s : WifiManager) : Call → Prop
  | .removeNetwork _ netId => netId ∈ s.ids
  | .enableNetwork netId => ∀ id ∈ s.ids, (id : Int) ≠ netId
  | _ => True

/-- A network is gone, or a new one is there. -/
structure Moved (s t : WifiManager) : Prop where
  nextId : s.nextId ≤ t.nextId
  ids : (∃ id ∈ s.ids, id ∉ t.ids) ∨ ∃ id ∈ t.ids, id ∉ s.ids

theorem Moved.networks_ne (h : Moved s t) : t.configuredNetworks ≠ s.configuredNetworks := by
  intro heq
  have hids : t.ids = s.ids := WifiManager.ids_eq heq
  have hmoved := h.ids
  rw [hids] at hmoved
  rcases hmoved with ⟨id, hid, hnot⟩ | ⟨id, hid, hnot⟩ <;> exact hnot hid

/-- **No call brings the networks back**: an id is given once, and the new network is not
removed. -/
theorem Moved.perform {c : Call} (hc : Within s c) (h : Moved s t) : Moved s (t.perform c) := by
  obtain ⟨hnext, hids⟩ := h
  cases c with
  | removeNetwork round netId =>
    refine ⟨hnext, ?_⟩
    rcases hids with ⟨id, hid, hnot⟩ | ⟨id, hid, hnot⟩
    · exact .inl ⟨id, hid, fun h => hnot (WifiManager.mem_ids_removeNetwork.mp h).1⟩
    · refine .inr ⟨id, WifiManager.mem_ids_removeNetwork.mpr ⟨hid, ?_⟩, hnot⟩
      rintro rfl
      exact hnot hc
  | addNetwork SSID preSharedKey =>
    refine ⟨Nat.le_succ_of_le hnext, ?_⟩
    rcases hids with ⟨id, hid, hnot⟩ | ⟨id, hid, hnot⟩
    · refine .inl ⟨id, hid, fun h => ?_⟩
      rcases WifiManager.mem_ids_addNetwork.mp h with h | h
      · exact hnot h
      · have hlt := WifiManager.lt_of_mem_ids hid
        omega
    · exact .inr ⟨id, WifiManager.mem_ids_addNetwork.mpr (.inl hid), hnot⟩
  | enableNetwork netId =>
    refine ⟨?_, ?_⟩
    · show s.nextId ≤ (t.enableNetwork netId).nextId
      unfold WifiManager.enableNetwork
      split <;> exact hnext
    · rwa [WifiManager.perform, WifiManager.ids_enableNetwork]
  | _ => exact ⟨hnext, hids⟩

/-- The call takes networks away or adds one. -/
def Changes (fate : Call → Fate) (c : Call) : Prop :=
  fate c = .succeeds ∧
    match c with
    | .removeNetwork .. | .addNetwork .. => True
    | _ => False

/-- The call throws, or the list that it returns is null. -/
def Throws (fate : Call → Fate) (c : Call) : Prop := (platform fate).thrown c ≠ none

/-- No call changes the networks before the first one that throws. -/
def KeepsNetworks (fate : Call → Fate) : List Call → Prop
  | [] => True
  | c :: cs => Throws fate c ∨ ¬Changes fate c ∧ KeepsNetworks fate cs

theorem Same.after {c : Call} (hc : Within s c) (hkeep : ¬Changes fate c) (h : Same s t) :
    Same s ((platform fate).after c t) := by
  show Same s (if fate c = .succeeds then t.perform c else t)
  by_cases hfate : fate c = .succeeds
  · rw [if_pos hfate]
    cases c with
    | removeNetwork round netId => exact absurd ⟨hfate, trivial⟩ hkeep
    | addNetwork SSID preSharedKey => exact absurd ⟨hfate, trivial⟩ hkeep
    | enableNetwork netId =>
      have hids : t.ids = s.ids := WifiManager.ids_eq h.1
      have hself : t.enableNetwork netId = t :=
        WifiManager.enableNetwork_eq_self (by rw [hids]; exact hc)
      show Same s (t.enableNetwork netId)
      rwa [hself]
    | _ => exact h
  · rwa [if_neg hfate]

theorem Moved.after {c : Call} (hc : Within s c) (hchange : Changes fate c) (h : Same s t) :
    Moved s ((platform fate).after c t) := by
  obtain ⟨hfate, hkind⟩ := hchange
  have hids : t.ids = s.ids := WifiManager.ids_eq h.1
  show Moved s (if fate c = .succeeds then t.perform c else t)
  rw [if_pos hfate]
  cases c with
  | removeNetwork round netId =>
    refine ⟨h.2.ge, .inl ⟨netId, hc, fun hmem => ?_⟩⟩
    exact (WifiManager.mem_ids_removeNetwork.mp hmem).2 rfl
  | addNetwork SSID preSharedKey =>
    refine ⟨h.2.ge.trans (Nat.le_succ _),
      .inr ⟨s.nextId, WifiManager.mem_ids_addNetwork.mpr (.inr h.2.symm), fun hmem => ?_⟩⟩
    exact lt_irrefl _ (WifiManager.lt_of_mem_ids hmem)
  | _ => exact hkind.elim

/-- **The networks are the same in the end** exactly if no call changes them before the first
one that throws. -/
theorem networks_iff {cs : List Call} (hcs : ∀ c ∈ cs, Within s c) (hsame : Same s t) :
    (Calls.state ((platform fate).run cs t)).configuredNetworks = s.configuredNetworks ↔
      KeepsNetworks fate cs := by
  induction cs generalizing t with
  | nil => exact iff_of_true hsame.1 trivial
  | cons c cs ih =>
    obtain ⟨hc, hcs⟩ := List.forall_mem_cons.mp hcs
    cases hthrown : (platform fate).thrown c with
    | some e =>
      rw [Calls.run_cons_thrown hthrown]
      have hthrows : Throws fate c := fun h => by
        rw [hthrown] at h
        cases h
      exact iff_of_true hsame.1 (.inl hthrows)
    | none =>
      have hthrows : ¬Throws fate c := fun h => h hthrown
      rw [Calls.run_cons_none hthrown, KeepsNetworks, or_iff_right hthrows]
      by_cases hchange : Changes fate c
      · have hmoved : Moved s
            (Calls.state ((platform fate).run cs ((platform fate).after c t))) := by
          refine Calls.run_invariant (P := Moved s) (fun c hc u hu => ?_)
            (Moved.after hc hchange hsame)
          show Moved s (if fate c = .succeeds then u.perform c else u)
          split
          · exact hu.perform (hcs c hc)
          · exact hu
        exact iff_of_false hmoved.networks_ne fun h => h.1 hchange
      · rw [ih hcs (hsame.after hc hchange), and_iff_right hchange]

/-! ## All or nothing -/

/-- The requested network is new, and enabled. -/
def Connected (s : WifiManager) (ssid password : Text) (t : WifiManager) : Prop :=
  ∃ i ∈ t.configuredNetworks, s.nextId ≤ i.networkId ∧ i.SSID = quote ssid ∧
    i.preSharedKey = quote password ∧ i.enabled = true

/-- A failure leaves the networks, and a success connects to the new one. -/
def AllOrNothing (fate : Call → Fate) (s : WifiManager) (ssid password : Option Text) : Prop :=
  match connectToWifi fate ssid password s with
  | (result, t) =>
    if result.success then Connected s (ssid.getD []) (password.getD []) t
    else t.configuredNetworks = s.configuredNetworks

theorem within_connectCalls {ssid password : Text} {c : Call}
    (hc : c ∈ connectCalls fate s ssid password) : Within s c := by
  rcases List.mem_append.mp hc with hc | hc
  · have hfirst := isFirst_of_mem hc
    cases c <;> trivial
  rcases List.mem_append.mp hc with hc | hc
  · obtain ⟨round, ⟨i, hi, rfl⟩ | rfl⟩ := mem_removeCalls hc
    · exact List.mem_map_of_mem hi
    · trivial
  simp only [lastCalls, List.mem_cons, List.not_mem_nil, or_false] at hc
  rcases hc with rfl | rfl | rfl | rfl
  · trivial
  · trivial
  · intro id hid
    have hlt := WifiManager.lt_of_mem_ids hid
    unfold newId
    split <;> omega
  · trivial

/-- **When no call throws**, the network is new and enabled exactly if adding and enabling
it succeeds. -/
theorem connected_iff {ssid password : Text}
    (hrun : (platform fate).run (connectCalls fate s ssid password) s = .ok ⟨⟩ t) :
    Connected s ssid password t ↔
      fate (.addNetwork (quote ssid) (quote password)) = .succeeds ∧
        fate (.enableNetwork s.nextId) = .succeeds := by
  rw [connectCalls, ← List.append_assoc] at hrun
  obtain ⟨v, hv, hrun⟩ := Calls.run_append_eq_ok hrun
  have hnextId : v.nextId = s.nextId := run_nextId (fun c hc => List.mem_append.mp hc) hv
  have hlt (i : WifiConfiguration) (hi : i ∈ v.configuredNetworks) : i.networkId < s.nextId := by
    rw [← hnextId]
    exact v.fresh i hi
  have hrun := Calls.run_cons_eq_ok hrun
  have hrun := Calls.run_cons_eq_ok hrun
  rw [after_eq_self rfl] at hrun
  have hrun := Calls.run_cons_eq_ok (Calls.run_cons_eq_ok hrun)
  rw [after_eq_self rfl] at hrun
  cases hrun
  by_cases hadd : fate (.addNetwork (quote ssid) (quote password)) = .succeeds
  · have hid : newId fate s ssid password = s.nextId := if_pos hadd
    rw [and_iff_right hadd, after_of_succeeds hadd, hid]
    by_cases henable : fate (.enableNetwork s.nextId) = .succeeds
    · rw [after_of_succeeds henable]
      refine iff_of_true ?_ henable
      have hnew : ⟨v.nextId, quote ssid, quote password, false⟩ ∈
          (v.addNetwork (quote ssid) (quote password)).configuredNetworks :=
        List.mem_append_right _ List.mem_cons_self
      have hthere : ∃ i ∈ (v.addNetwork (quote ssid) (quote password)).configuredNetworks,
          (i.networkId : Int) = s.nextId := ⟨_, hnew, congrArg _ hnextId⟩
      show Connected s ssid password
        ((v.addNetwork (quote ssid) (quote password)).enableNetwork s.nextId)
      rw [WifiManager.enableNetwork, if_pos hthere]
      exact ⟨_, List.mem_map_of_mem hnew, hnextId.ge, rfl, rfl,
        decide_eq_true (congrArg _ hnextId)⟩
    · rw [after_of_not henable]
      refine iff_of_false ?_ henable
      rintro ⟨i, hi, hle, -, -, henabled⟩
      rcases List.mem_append.mp hi with hi | hi
      · exact absurd (hlt i hi) (Nat.not_lt.mpr hle)
      · rw [List.mem_singleton.mp hi] at henabled
        cases henabled
  · refine iff_of_false ?_ fun h => hadd h.1
    have hid : newId fate s ssid password = -1 := if_neg hadd
    have hnone : v.enableNetwork (-1) = v :=
      WifiManager.enableNetwork_eq_self fun id _ => by omega
    rw [after_of_not hadd, hid, after_eq_self (c := .enableNetwork (-1)) hnone]
    rintro ⟨i, hi, hle, -⟩
    exact absurd (hlt i hi) (Nat.not_lt.mpr hle)

/-- **A change is all or nothing** exactly if a value is empty, or a call throws before the
networks have changed, or none throws and the new network is added and enabled. -/
theorem allOrNothing_iff (fate : Call → Fate) (s : WifiManager) (ssid password : Option Text) :
    AllOrNothing fate s ssid password ↔
      (ssid.getD [] = [] ∨ password.getD [] = []) ∨
      (∃ c ∈ connectCalls fate s (ssid.getD []) (password.getD []), Throws fate c) ∧
        KeepsNetworks fate (connectCalls fate s (ssid.getD []) (password.getD [])) ∨
      (∀ c ∈ connectCalls fate s (ssid.getD []) (password.getD []), ¬Throws fate c) ∧
        fate (.addNetwork (quote (ssid.getD [])) (quote (password.getD []))) = .succeeds ∧
        fate (.enableNetwork s.nextId) = .succeeds := by
  unfold AllOrNothing connectToWifi
  generalize ssid.getD [] = ssid
  generalize password.getD [] = password
  by_cases hempty : ssid = [] ∨ password = []
  · rw [if_pos hempty]
    exact iff_of_true rfl (.inl hempty)
  have hnetworks : (Calls.state ((platform fate).run (connectCalls fate s ssid password)
      s)).configuredNetworks = s.configuredNetworks ↔
      KeepsNetworks fate (connectCalls fate s ssid password) :=
    networks_iff (fun _ => within_connectCalls) ⟨rfl, rfl⟩
  dsimp only
  rw [if_neg hempty, or_iff_right hempty, connect, connectBody_makes ssid password]
  cases hrun : (platform fate).run (connectCalls fate s ssid password) s with
  | ok u t =>
    have hthrows : ∀ c ∈ connectCalls fate s ssid password, ¬Throws fate c := fun c hc =>
      not_not.mpr (Calls.run_eq_ok_iff.mp ⟨t, hrun⟩ c hc)
    have hno : ¬∃ c ∈ connectCalls fate s ssid password, Throws fate c :=
      fun ⟨c, hc, h⟩ => hthrows c hc h
    rw [or_iff_right fun h => hno h.1, and_iff_right hthrows]
    exact connected_iff hrun
  | error e t =>
    have hthrows : ∃ c ∈ connectCalls fate s ssid password, Throws fate c := by
      by_contra hno
      obtain ⟨u, hok⟩ := Calls.run_eq_ok_iff.mpr fun c hc =>
        not_not.mp fun h => hno ⟨c, hc, h⟩
      rw [hrun] at hok
      cases hok
    rw [or_iff_left fun h => ?_, and_iff_right hthrows, ← hnetworks, hrun]
    · rfl
    · obtain ⟨c, hc, hthrow⟩ := hthrows
      exact h.1 c hc hthrow

/-- The new network is not added, and the change is reported as done. -/
theorem not_allOrNothing : ¬∀ (fate : Call → Fate) (s : WifiManager)
    (ssid password : Option Text), AllOrNothing fate s ssid password := by
  intro h
  let s : WifiManager :=
    ⟨true, [⟨0, quote "home".toList, quote "12345678".toList, true⟩], 1, by simp⟩
  let fate : Call → Fate
    | .addNetwork _ _ => .fails
    | _ => .succeeds
  obtain ⟨i, hi, -⟩ := h fate s (some "lab".toList) (some "12345678".toList)
  cases hi

/-! ## Requests in a row -/

/-- The device has a network that it may use. -/
def WifiManager.Online (s : WifiManager) : Prop := ∃ i ∈ s.configuredNetworks, i.enabled = true

/-- A request, with the calls ending as they may, that is all or nothing. -/
def Requested (s t : WifiManager) : Prop :=
  ∃ fate ssid password, AllOrNothing fate s (some ssid) (some password) ∧
    t = (execute fate ssid password s).2

theorem Requested.online (h : Requested s t) (hs : s.Online) : t.Online := by
  obtain ⟨fate, ssid, password, hall, rfl⟩ := h
  have hall : if (execute fate ssid password s).1.success then
      Connected s ssid password (execute fate ssid password s).2
      else (execute fate ssid password s).2.configuredNetworks = s.configuredNetworks := hall
  split at hall
  · obtain ⟨i, hi, -, -, -, henabled⟩ := hall
    exact ⟨i, hi, henabled⟩
  · unfold WifiManager.Online
    rwa [hall]

/-- **Requests do not cut the device off**, as long as each of them is all or nothing. -/
theorem online_of_requests (h : Relation.ReflTransGen Requested s t) (hs : s.Online) :
    t.Online := by
  induction h with
  | refl => exact hs
  | tail _ hstep ih => exact hstep.online ih

end Anx.Device
