import Anx.Lib.RepSocket

/-!
# WebSocket frames

The base framing protocol, as a client sees it: final text and binary frames.

- `mask`: the masking of a payload, which undoes itself;
- `ClientFrame`, `ClientFrame.bytes`: a frame as a client sends it, masked, with a short length;
- `readFrames`: how a client reads what a server sends, with the three forms of a
  length. `readFrames_cons`: one frame at a time.
-/

namespace Anx.Lib.WsFrame

open Anx.Lib

/-! ## Masks -/

/-- A masking key. -/
structure Key where
  k0 : UInt8
  k1 : UInt8
  k2 : UInt8
  k3 : UInt8
deriving DecidableEq, Repr

def Key.bytes (key : Key) : Bytes := [key.k0, key.k1, key.k2, key.k3]

/-- Byte `i` of a payload is combined with byte `i % 4` of the key. -/
def mask (key : Key) (payload : Bytes) : Bytes :=
  payload.mapIdx fun i byte => byte ^^^ key.bytes.getD (i % 4) 0

theorem xor_xor_cancel (a b : UInt8) : a ^^^ b ^^^ b = a := by
  rw [UInt8.xor_assoc, UInt8.xor_self, UInt8.xor_zero]

/-- Masking twice is nothing. -/
theorem mask_mask (key : Key) (payload : Bytes) : mask key (mask key payload) = payload := by
  refine List.ext_getElem? fun i => ?_
  simp only [mask, List.getElem?_mapIdx, Option.map_map]
  cases payload[i]? with
  | none => rfl
  | some byte => exact congrArg some (xor_xor_cancel byte _)

@[simp] theorem length_mask (key : Key) (payload : Bytes) :
    (mask key payload).length = payload.length :=
  List.length_mapIdx

/-! ## What clients send -/

/-- A final data frame of a client. -/
structure ClientFrame where
  binary : Bool
  key : Key
  payload : Bytes
deriving DecidableEq, Repr

/-- The first byte of a final data frame. -/
def flag (binary : Bool) : UInt8 := if binary then 0x82 else 0x81

/-- The frame as it is sent, if its length fits in seven bits. -/
def ClientFrame.bytes (f : ClientFrame) : Bytes :=
  flag f.binary :: UInt8.ofNat (f.payload.length + 128) ::
    (f.key.bytes ++ mask f.key f.payload)

/-! ## What servers send -/

/-- A number of several bytes, most significant first. -/
def readBig (bs : Bytes) : Nat := bs.foldl (fun n byte => 256 * n + byte.toNat) 0

/-- `n` bytes, and what is behind them. -/
def readBytes (n : Nat) (bs : Bytes) : Option (Bytes × Bytes) :=
  if n ≤ bs.length then some (bs.take n, bs.drop n) else none

/-- The length in a header of a server. -/
def readLength : Bytes → Option (Nat × Bytes)
  | [] => none
  | byte :: bs =>
    if byte.toNat < 126 then some (byte.toNat, bs)
    else if byte.toNat = 126 then (readBytes 2 bs).map fun p => (readBig p.1, p.2)
    else if byte.toNat = 127 then (readBytes 8 bs).map fun p => (readBig p.1, p.2)
    else none

/-- The payload of one frame of a server, and what is behind it. -/
def readFrame : Bytes → Option (Bytes × Bytes)
  | 0x82 :: bs => (readLength bs).bind fun p => readBytes p.1 p.2
  | _ => none

/-- The payloads of all frames of a server; a frame has at least two bytes. -/
def readFrames : Nat → Bytes → Option (List Bytes)
  | _, [] => some []
  | 0, _ :: _ => none
  | k + 1, byte :: bs =>
    (readFrame (byte :: bs)).bind fun p => (readFrames k p.2).map (p.1 :: ·)

theorem readBytes_append {n : Nat} (bs : Bytes) {rest : Bytes} (h : bs.length = n) :
    readBytes n (bs ++ rest) = some (bs, rest) := by
  subst h
  rw [readBytes, if_pos (by simp), List.take_left, List.drop_left]

/-- A frame whose length is in seven bits. -/
theorem readFrame_short {payload : Bytes} (rest : Bytes) (h : payload.length < 126) :
    readFrame (0x82 :: UInt8.ofNat payload.length :: (payload ++ rest)) = some (payload, rest) := by
  have hlength : (UInt8.ofNat payload.length).toNat = payload.length := by
    rw [UInt8.toNat_ofNat']
    exact Nat.mod_eq_of_lt (by omega)
  rw [readFrame, readLength, hlength, if_pos h, Option.bind_some]
  exact readBytes_append payload rfl

/-- A frame whose length is in two more bytes. -/
theorem readFrame_medium {payload : Bytes} (rest : Bytes) (h : payload.length < 65536) :
    readFrame (0x82 :: 126 :: UInt8.ofNat (payload.length / 256) ::
      UInt8.ofNat (payload.length % 256) :: (payload ++ rest)) = some (payload, rest) := by
  have hhigh : (UInt8.ofNat (payload.length / 256)).toNat = payload.length / 256 := by
    rw [UInt8.toNat_ofNat']
    exact Nat.mod_eq_of_lt (by omega)
  have hlow : (UInt8.ofNat (payload.length % 256)).toNat = payload.length % 256 := by
    rw [UInt8.toNat_ofNat']
    exact Nat.mod_eq_of_lt (by omega)
  have hbig : readBig [UInt8.ofNat (payload.length / 256), UInt8.ofNat (payload.length % 256)] =
      payload.length := by
    show 256 * (256 * 0 + _) + _ = _
    rw [hhigh, hlow]
    omega
  have hlength : readLength (126 :: UInt8.ofNat (payload.length / 256) ::
      UInt8.ofNat (payload.length % 256) :: (payload ++ rest)) =
        some (payload.length, payload ++ rest) := by
    have hbytes : readBytes 2 (UInt8.ofNat (payload.length / 256) ::
        UInt8.ofNat (payload.length % 256) :: (payload ++ rest)) =
          some ([UInt8.ofNat (payload.length / 256), UInt8.ofNat (payload.length % 256)],
            payload ++ rest) :=
      readBytes_append [_, _] rfl
    rw [readLength, if_neg (by decide), if_pos (by decide), hbytes, Option.map_some, hbig]
  rw [readFrame, hlength, Option.bind_some]
  exact readBytes_append payload rfl

theorem readFrames_cons {k : Nat} {bs rest payload : Bytes} {payloads : List Bytes}
    (hframe : readFrame bs = some (payload, rest)) (hrest : readFrames k rest = some payloads) :
    readFrames (k + 1) bs = some (payload :: payloads) := by
  cases bs with
  | nil => cases hframe
  | cons byte bs =>
    rw [readFrames, hframe, Option.bind_some, hrest]
    rfl

end Anx.Lib.WsFrame
