import Anx.Comms.Messages
import Anx.Lib.Registers

/-!
# The stream of IMU data

`Imu::onSensorChanged` (imu.cpp:42–79) runs in the thread of the sensors and stores the
numbers of an event in `data_`; `Imu::publishData` (imu.cpp:87–144) runs in a thread of
its own, loads the 19 numbers one by one, and publishes them as an `ImuData`. There is no
lock between the two.

- `onSensorChanged`, `slots`, `sample`: the stores, the loads and the message;
- `machine`: the two threads, in any interleaving of single stores and loads;
  `published`: what was published;
- `latest`: a number in the last event of its sensor;
- `published_read`: **what a subscriber reads** of every message.

A store or a load of one `double` is atomic. `widen` is the conversion of a `float` to a
`double`, of which nothing is assumed.
-/

namespace Anx.Sensor.ImuStream

open Anx.Lib Anx.Lib.Wire Anx.Comms

/-- The sensors that `Imu::start` registers (imu.cpp:31–37). -/
inductive SensorType where
  | ACCELEROMETER
  | GYROSCOPE
  | ROTATION_VECTOR
  | ACCELEROMETER_UNCALIBRATED
  | GYROSCOPE_UNCALIBRATED
  | MAGNETIC_FIELD_UNCALIBRATED
deriving DecidableEq, Repr

/-- The constants `ASENSOR_TYPE_…`. -/
def SensorType.code : SensorType → Nat
  | ACCELEROMETER => 1
  | GYROSCOPE => 4
  | ROTATION_VECTOR => 11
  | ACCELEROMETER_UNCALIBRATED => 35
  | GYROSCOPE_UNCALIBRATED => 16
  | MAGNETIC_FIELD_UNCALIBRATED => 14

/-- The length of the array in `imu_data_t` that a sensor fills. -/
def SensorType.length : SensorType → Nat
  | ROTATION_VECTOR => 4
  | _ => 3

/-- A number in `imu_data_t`: the array of its sensor, and the index. -/
structure Slot where
  sensor : SensorType
  index : Nat
deriving DecidableEq, Repr

/-- An `ASensorEvent`. -/
structure ASensorEvent where
  type : Nat
  data : Nat → BitVec 32

/-- The slots of a sensor. -/
def SensorType.slots (sensor : SensorType) : List Slot :=
  (List.range sensor.length).map fun i => ⟨sensor, i⟩

/-- The order of the branches of `onSensorChanged`. -/
def sensors : List SensorType :=
  [.ACCELEROMETER, .GYROSCOPE, .ROTATION_VECTOR, .ACCELEROMETER_UNCALIBRATED,
    .GYROSCOPE_UNCALIBRATED, .MAGNETIC_FIELD_UNCALIBRATED]

/-- The loads of `publishData`, in their order. -/
def slots : List Slot :=
  [.ACCELEROMETER_UNCALIBRATED, .GYROSCOPE_UNCALIBRATED, .MAGNETIC_FIELD_UNCALIBRATED,
    .ACCELEROMETER, .GYROSCOPE, .ROTATION_VECTOR].flatMap SensorType.slots

/-- Three numbers as a message. -/
def vector3 (v : Slot → BitVec 64) (sensor : SensorType) : Messages.Vector3 :=
  ⟨v ⟨sensor, 0⟩, v ⟨sensor, 1⟩, v ⟨sensor, 2⟩⟩

/-- The message that `publishData` fills with what it loaded. -/
def sample (v : Slot → BitVec 64) : Messages.ImuData where
  filtered := some {
    acceleration := some (vector3 v .ACCELEROMETER)
    angular_velocity := some (vector3 v .GYROSCOPE)
    orientation := some ⟨v ⟨.ROTATION_VECTOR, 0⟩, v ⟨.ROTATION_VECTOR, 1⟩,
      v ⟨.ROTATION_VECTOR, 2⟩, v ⟨.ROTATION_VECTOR, 3⟩⟩ }
  raw := some {
    acceleration := some (vector3 v .ACCELEROMETER_UNCALIBRATED)
    angular_velocity := some (vector3 v .GYROSCOPE_UNCALIBRATED)
    magnetic_field_in_micro_tesla := some (vector3 v .MAGNETIC_FIELD_UNCALIBRATED) }

section

variable (widen : BitVec 32 → BitVec 64)

/-- `Imu::onSensorChanged`: the stores that an event leads to. -/
def onSensorChanged (event : ASensorEvent) : List (Slot × BitVec 64) :=
  sensors.flatMap fun sensor =>
    if event.type = sensor.code then
      sensor.slots.map fun slot => (slot, widen (event.data slot.index))
    else []

/-- The thread of the sensors and the publisher's. -/
def machine : Machine (Registers.Shared Slot (BitVec 64)) (Registers.Action ASensorEvent) :=
  Registers.machine (onSensorChanged widen) slots

/-- `data_{}` is zero at the start. -/
def init : Registers.Shared Slot (BitVec 64) := Registers.init slots fun _ => 0

end

/-- The messages that were published, in bytes. -/
def published (s : Registers.Shared Slot (BitVec 64)) : List Bytes :=
  s.sent.map fun v => Messages.ImuData.format.serializeToString (sample v)

/-- A number of a vector. -/
def axis (v : Messages.Vector3) : Nat → BitVec 64
  | 0 => v.x
  | 1 => v.y
  | _ => v.z

/-- A number of a quaternion. -/
def axis4 (v : Messages.Quaternion) : Nat → BitVec 64
  | 0 => v.x
  | 1 => v.y
  | 2 => v.z
  | _ => v.w

/-- Where a subscriber finds the number of a slot. -/
def number (m : Messages.ImuData) (slot : Slot) : Option (BitVec 64) :=
  match slot.sensor with
  | .ACCELEROMETER => (m.filtered.bind (·.acceleration)).map (axis · slot.index)
  | .GYROSCOPE => (m.filtered.bind (·.angular_velocity)).map (axis · slot.index)
  | .ROTATION_VECTOR => (m.filtered.bind (·.orientation)).map (axis4 · slot.index)
  | .ACCELEROMETER_UNCALIBRATED => (m.raw.bind (·.acceleration)).map (axis · slot.index)
  | .GYROSCOPE_UNCALIBRATED => (m.raw.bind (·.angular_velocity)).map (axis · slot.index)
  | .MAGNETIC_FIELD_UNCALIBRATED =>
    (m.raw.bind (·.magnetic_field_in_micro_tesla)).map (axis · slot.index)

/-- The number of a slot in the last event of its sensor; zero before the first one. -/
def latest (widen : BitVec 32 → BitVec 64) (events : List ASensorEvent) (slot : Slot) : BitVec 64 :=
  match (events.filter fun e => e.type == slot.sensor.code).getLast? with
  | some e => widen (e.data slot.index)
  | none => 0

/-! ## The stores of an event -/

variable {widen : BitVec 32 → BitVec 64}

theorem mem_slots {slot : Slot} : slot ∈ slots ↔ slot ∈ slot.sensor.slots := by
  obtain ⟨sensor, index⟩ := slot
  cases sensor <;> simp [slots, SensorType.slots]

/-- An event of a sensor fills the array of the sensor. -/
theorem onSensorChanged_of_code {e : ASensorEvent} {sensor : SensorType}
    (h : e.type = sensor.code) : onSensorChanged widen e =
      sensor.slots.map fun slot => (slot, widen (e.data slot.index)) := by
  cases sensor <;> simp [onSensorChanged, sensors, h, SensorType.code]

/-- An event of another type changes nothing. -/
theorem onSensorChanged_of_ne {e : ASensorEvent} (h : ∀ sensor : SensorType, e.type ≠ sensor.code) :
    onSensorChanged widen e = [] := by
  rw [onSensorChanged, List.flatMap_eq_nil_iff]
  exact fun sensor _ => if_neg (h sensor)

theorem nodup_slots (sensor : SensorType) : sensor.slots.Nodup := by
  cases sensor <;> decide

theorem onSensorChanged_nodup (e : ASensorEvent) :
    ((onSensorChanged widen e).map Prod.fst).Nodup := by
  by_cases h : ∃ sensor : SensorType, e.type = sensor.code
  · obtain ⟨sensor, hsensor⟩ := h
    rw [onSensorChanged_of_code hsensor, List.map_map]
    have hid : (sensor.slots.map fun slot => slot) = sensor.slots := List.map_id' _
    exact hid.symm ▸ nodup_slots sensor
  · rw [onSensorChanged_of_ne fun sensor hsensor => h ⟨sensor, hsensor⟩]
    exact List.nodup_nil

/-- What an event makes of a slot. -/
theorem writeAll_onSensorChanged {data : Slot → BitVec 64} (e : ASensorEvent) {slot : Slot}
    (hslot : slot ∈ slots) : Registers.writeAll data (onSensorChanged widen e) slot =
      if e.type = slot.sensor.code then widen (e.data slot.index) else data slot := by
  split
  · next h =>
    rw [onSensorChanged_of_code h]
    exact Registers.writeAll_map (fun slot => widen (e.data slot.index)) (mem_slots.mp hslot)
  · next h =>
    refine Registers.writeAll_of_notMem fun hmem => h ?_
    -- the slots that an event stores are those of its sensor
    obtain ⟨p, hp, rfl⟩ := List.mem_map.mp hmem
    obtain ⟨sensor, -, hp⟩ := List.mem_flatMap.mp hp
    split at hp
    · next hcode =>
      obtain ⟨_, hmem', rfl⟩ := List.mem_map.mp hp
      obtain ⟨i, -, rfl⟩ := List.mem_map.mp hmem'
      exact hcode
    · exact absurd hp List.not_mem_nil

theorem latest_concat (es : List ASensorEvent) (e : ASensorEvent) (slot : Slot) :
    latest widen (es ++ [e]) slot =
      if e.type = slot.sensor.code then widen (e.data slot.index) else latest widen es slot := by
  rw [latest, List.filter_append]
  by_cases h : e.type = slot.sensor.code
  · have hfilter : [e].filter (fun e => e.type == slot.sensor.code) = [e] := by simp [h]
    rw [if_pos h, hfilter, List.getLast?_concat]
  · have hfilter : [e].filter (fun e => e.type == slot.sensor.code) = [] := by simp [h]
    rw [if_neg h, hfilter, List.append_nil]
    rfl

/-- The events leave the numbers of the last event of each sensor. -/
theorem after_eq_latest (es : List ASensorEvent) {slot : Slot} (hslot : slot ∈ slots) :
    Registers.after (onSensorChanged widen) (fun _ => 0) es slot = latest widen es slot := by
  induction es using List.reverseRecOn with
  | nil => rfl
  | append_singleton es e ih =>
    rw [Registers.after_append, latest_concat, ← ih]
    exact writeAll_onSensorChanged e hslot

/-! ## What a subscriber reads -/

/-- A subscriber finds every number of a sample. -/
theorem number_sample (v : Slot → BitVec 64) {slot : Slot} (hslot : slot ∈ slots) :
    number (sample v).plusZero slot = some (Messages.plusZero (v slot)) := by
  obtain ⟨sensor, index⟩ := slot
  have hindex : index < sensor.length := by
    obtain ⟨i, hi, heq⟩ := List.mem_map.mp (mem_slots.mp hslot)
    cases heq
    exact List.mem_range.mp hi
  cases sensor with
  | ROTATION_VECTOR =>
    obtain rfl | rfl | rfl | rfl : index = 0 ∨ index = 1 ∨ index = 2 ∨ index = 3 := by
      have hlt : index < 4 := hindex
      omega
    all_goals rfl
  | ACCELEROMETER | GYROSCOPE | ACCELEROMETER_UNCALIBRATED | GYROSCOPE_UNCALIBRATED |
      MAGNETIC_FIELD_UNCALIBRATED =>
    obtain rfl | rfl | rfl : index = 0 ∨ index = 1 ∨ index = 2 := by
      have hlt : index < 3 := hindex
      omega
    all_goals rfl

/-- **What a subscriber reads**: in every interleaving of the two threads, each of the 19
numbers of message `k` is that of the last event of its sensor, at some moment after `k`
messages were published; while that event is being stored it may be the one before, before
the first event it is zero, and a negative zero arrives as zero. -/
theorem published_read (widen : BitVec 32 → BitVec 64)
    {as : List (Registers.Action ASensorEvent)} {s : Registers.Shared Slot (BitVec 64)}
    (h : (machine widen).exec init as = some s) {k : Nat} {payload : Bytes}
    (hk : (published s)[k]? = some payload) :
    ∃ m, Messages.ImuData.format.parse payload = some m ∧
      ∀ slot ∈ slots, ∃ bs u events, bs <+: as ∧ (machine widen).exec init bs = some u ∧
        (published u).length = k ∧
        (events = Registers.events bs ∨
          events = (Registers.events bs).dropLast ∧ u.pending ≠ []) ∧
        number m slot = some (Messages.plusZero (latest widen events slot)) := by
  rw [published, List.getElem?_map, Option.map_eq_some_iff] at hk
  obtain ⟨v, hv, rfl⟩ := hk
  refine ⟨(sample v).plusZero, Messages.ImuData.parse _, fun slot hslot => ?_⟩
  obtain ⟨bs, u, hbs, hu, hlen, hdata⟩ := Registers.sample_mem h hv hslot
  obtain ⟨events, hevents, hafter⟩ := Registers.data_eq onSensorChanged_nodup hu slot
  refine ⟨bs, u, events, hbs, hu, (List.length_map _).trans hlen, hevents, ?_⟩
  rw [number_sample v hslot, ← hdata, hafter, after_eq_latest events hslot]

/-- The publisher runs when one of the three numbers of an event is stored. -/
def tornRun : List (Registers.Action ASensorEvent) :=
  [.event ⟨1, fun i => BitVec.ofNat 32 (i + 1)⟩, .store] ++ List.replicate 19 .load ++
    [.send, .store, .store]

theorem published_read_torn : ∃ s payload m,
    (machine (BitVec.setWidth 64)).exec init tornRun = some s ∧
      (published s)[0]? = some payload ∧ Messages.ImuData.format.parse payload = some m ∧
      ∀ slot ∈ slots, ∃ bs u events, bs <+: tornRun ∧
        (machine (BitVec.setWidth 64)).exec init bs = some u ∧ (published u).length = 0 ∧
        (events = Registers.events bs ∨
          events = (Registers.events bs).dropLast ∧ u.pending ≠ []) ∧
        number m slot = some (Messages.plusZero (latest (BitVec.setWidth 64) events slot)) := by
  obtain ⟨s, payload, hexec, hpayload⟩ : ∃ s payload,
      (machine (BitVec.setWidth 64)).exec init tornRun = some s ∧
        (published s)[0]? = some payload := ⟨_, _, rfl, rfl⟩
  obtain ⟨m, hm, hslots⟩ := published_read (BitVec.setWidth 64) hexec hpayload
  exact ⟨s, payload, m, hexec, hpayload, hm, hslots⟩

end Anx.Sensor.ImuStream
