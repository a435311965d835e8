import Mathlib.Data.Int.ModEq
import Mathlib.Tactic.Ring
import Anx.Lib.RepSocket

/-!
# Numbers and lengths in the protobuf wire format

How the C++ library writes and reads the numbers of a message. A reader takes the
bytes from its position on and returns what it read with the bytes behind it, or
nothing where the library gives up.

- `writeVarint`, `readVarint`: seven bits a byte, least significant first, with the
  high bit set on every byte but the last. `readVarint_writeVarint`: reading what
  was written gives the number, up to the width that the reader keeps.
- `readTag`, `readSize`, `readDelimited`: the bounded readers for the tag of a
  field and for the length in front of a value.
- `writeLittle`, `readLittle`: numbers of fixed width.
-/

namespace Anx.Lib.Wire

open Anx.Lib

variable {α : Type}

/-! ## Varints -/

/-- `WriteVarint` with at most `k` bytes. -/
def writeVarintIn : Nat → Nat → Bytes
  | 0, _ => []
  | k + 1, n =>
    if n < 128 then [UInt8.ofNat n]
    else UInt8.ofNat (n % 128 + 128) :: writeVarintIn k (n / 128)

/-- `WriteVarint`: ten bytes hold 70 bits, and numbers have 64. -/
def writeVarint (n : Nat) : Bytes := writeVarintIn 10 n

/-- The bytes from the second one on: `res += (byte - 1) << (7 * i)` in `w` bits.
The byte before had its high bit set, which is what the `- 1` takes off. -/
def readVarintLoop (w : Nat) : Nat → Nat → Nat → Bytes → Option (Nat × Bytes)
  | 0, _, _, _ => none
  | _ + 1, _, _, [] => none
  | k + 1, i, res, byte :: rest =>
    let res := (res + (byte.toNat + (2 ^ w - 1)) * 2 ^ (7 * i)) % 2 ^ w
    if byte.toNat < 128 then some (res, rest) else readVarintLoop w k (i + 1) res rest

/-- `VarintParse` and its like: a number of `w` bits in at most `k + 1` bytes. -/
def readVarint (w k : Nat) : Bytes → Option (Nat × Bytes)
  | [] => none
  | byte :: rest =>
    if byte.toNat < 128 then some (byte.toNat, rest) else readVarintLoop w k 1 byte.toNat rest

@[simp] theorem readVarint_nil (w k : Nat) : readVarint w k [] = none := rfl

theorem writeVarintIn_small {k n : Nat} (h : n < 128) :
    writeVarintIn (k + 1) n = [UInt8.ofNat n] := by
  rw [writeVarintIn, if_pos h]

theorem writeVarintIn_large {k n : Nat} (h : ¬ n < 128) :
    writeVarintIn (k + 1) n = UInt8.ofNat (n % 128 + 128) :: writeVarintIn k (n / 128) := by
  rw [writeVarintIn, if_neg h]

theorem toNat_ofNat_small {n : Nat} (h : n < 256) : (UInt8.ofNat n).toNat = n := by
  rw [UInt8.toNat_ofNat']
  exact Nat.mod_eq_of_lt h

theorem writeVarintIn_length (k n : Nat) : (writeVarintIn k n).length ≤ k := by
  induction k generalizing n with
  | zero => exact Nat.le_refl 0
  | succ k ih =>
    by_cases h : n < 128
    · rw [writeVarintIn_small h]
      exact Nat.succ_le_succ (Nat.zero_le k)
    · rw [writeVarintIn_large h]
      exact Nat.succ_le_succ (ih _)

theorem writeVarint_length (n : Nat) : (writeVarint n).length ≤ 10 := writeVarintIn_length 10 n

/-- One byte of the loop, seen modulo `2 ^ w`: the high bit that the byte before left
at place `i` goes, and the byte comes. -/
theorem readVarintLoop_byte {w i res base b : Nat} (hres : res ≡ base + 128 ^ i [MOD 2 ^ w]) :
    res + (b + (2 ^ w - 1)) * 2 ^ (7 * i) ≡ base + b * 128 ^ i [MOD 2 ^ w] := by
  have hpow : 2 ^ (7 * i) = 128 ^ i := pow_mul 2 7 i
  obtain ⟨m, hm⟩ : ∃ m, 2 ^ w = m + 1 := Nat.exists_eq_succ_of_ne_zero (Nat.two_pow_pos w).ne'
  rw [hpow, hm, Nat.add_sub_cancel]
  calc res + (b + m) * 128 ^ i
      ≡ base + 128 ^ i + (b + m) * 128 ^ i [MOD m + 1] := (hm ▸ hres).add_right _
    _ = base + b * 128 ^ i + (m + 1) * 128 ^ i := by ring
    _ ≡ base + b * 128 ^ i [MOD m + 1] := Nat.add_mul_mod_self_left _ _ _

/-- The loop reads a written number on top of what is there: `base` is the number read
so far, and the last byte left its high bit at place `i`. -/
theorem readVarintLoop_writeVarintIn {w j k i res base n : Nat} (rest : Bytes)
    (hres : res ≡ base + 128 ^ i [MOD 2 ^ w]) (hn : n < 128 ^ k) (hk : 0 < k) (hkj : k ≤ j) :
    readVarintLoop w k i res (writeVarintIn j n ++ rest) =
      some ((base + n * 128 ^ i) % 2 ^ w, rest) := by
  induction k generalizing j i res base n with
  | zero => omega
  | succ k ih =>
    obtain ⟨j, rfl⟩ : ∃ j', j = j' + 1 := ⟨j - 1, by omega⟩
    by_cases hsmall : n < 128
    · rw [writeVarintIn_small hsmall]
      have hb : (UInt8.ofNat n).toNat = n := toNat_ofNat_small (by omega)
      show (if _ then some (_, rest) else _) = _
      rw [hb, if_pos hsmall, readVarintLoop_byte hres]
    · rw [writeVarintIn_large hsmall]
      have hb : (UInt8.ofNat (n % 128 + 128)).toNat = n % 128 + 128 := toNat_ofNat_small (by omega)
      show (if _ then _ else readVarintLoop w k (i + 1) _ (writeVarintIn j (n / 128) ++ rest)) = _
      rw [hb, if_neg (by omega)]
      have hdiv : n / 128 < 128 ^ k := Nat.div_lt_of_lt_mul (by rw [pow_succ'] at hn; exact hn)
      have hk' : 0 < k := by
        rcases Nat.eq_zero_or_pos k with rfl | hpos
        · rw [pow_zero] at hdiv
          omega
        · exact hpos
      -- the byte stands for its seven bits and for the high bit that the next one takes off
      have hnext : (res + (n % 128 + 128 + (2 ^ w - 1)) * 2 ^ (7 * i)) % 2 ^ w ≡
          (base + n % 128 * 128 ^ i) + 128 ^ (i + 1) [MOD 2 ^ w] := by
        refine (Nat.mod_modEq _ _).trans ((readVarintLoop_byte hres).trans ?_)
        rw [show base + (n % 128 + 128) * 128 ^ i =
          base + n % 128 * 128 ^ i + 128 ^ (i + 1) by rw [pow_succ]; ring]
      rw [ih hnext hdiv hk' (by omega)]
      have hsum : base + n % 128 * 128 ^ i + n / 128 * 128 ^ (i + 1) = base + n * 128 ^ i := by
        calc base + n % 128 * 128 ^ i + n / 128 * 128 ^ (i + 1)
            = base + (n % 128 + 128 * (n / 128)) * 128 ^ i := by rw [pow_succ]; ring
          _ = base + n * 128 ^ i := by rw [Nat.mod_add_div]
      rw [hsum]

/-- **A number is read as it was written**, up to the width that the reader keeps. -/
theorem readVarint_writeVarint {w k n : Nat} (rest : Bytes) (hw : 7 ≤ w) (hk : k ≤ 9)
    (hn : n < 128 ^ (k + 1)) :
    readVarint w k (writeVarint n ++ rest) = some (n % 2 ^ w, rest) := by
  have hpow : 128 ≤ 2 ^ w := by
    calc 128 = 2 ^ 7 := rfl
      _ ≤ 2 ^ w := Nat.pow_le_pow_right (by omega) hw
  by_cases hsmall : n < 128
  · rw [writeVarint, writeVarintIn_small hsmall]
    have hb : (UInt8.ofNat n).toNat = n := toNat_ofNat_small (by omega)
    show (if _ then some (_, rest) else _) = _
    rw [hb, if_pos hsmall, Nat.mod_eq_of_lt (by omega)]
  · rw [writeVarint, writeVarintIn_large hsmall]
    have hb : (UInt8.ofNat (n % 128 + 128)).toNat = n % 128 + 128 := toNat_ofNat_small (by omega)
    show (if _ then _ else readVarintLoop w k 1 _ (writeVarintIn 9 (n / 128) ++ rest)) = _
    rw [hb, if_neg (by omega)]
    have hdiv : n / 128 < 128 ^ k := Nat.div_lt_of_lt_mul (by rw [pow_succ'] at hn; exact hn)
    have hk0 : 0 < k := by
      rcases Nat.eq_zero_or_pos k with rfl | hpos
      · rw [pow_zero] at hdiv
        omega
      · exact hpos
    have hfirst : n % 128 + 128 ≡ n % 128 + 128 ^ 1 [MOD 2 ^ w] := by rw [pow_one]
    rw [readVarintLoop_writeVarintIn rest hfirst hdiv hk0 hk, pow_one, Nat.mul_comm,
      Nat.mod_add_div]

/-! ## Tags, sizes and values behind a size -/

/-- `ReadTag`: five bytes at most. -/
def readTag : Bytes → Option (Nat × Bytes) := readVarint 32 4

/-- `INT_MAX - kSlopBytes`. -/
def maxSize : Nat := 2 ^ 31 - 1 - 16

/-- `ReadSize`: five bytes at most, which are 35 bits; a size that is not below
`INT_MAX` by a margin is refused. -/
def readSize (bs : Bytes) : Option (Nat × Bytes) :=
  (readVarint 35 4 bs).bind fun p => if p.1 ≤ maxSize then some p else none

/-- A value behind its size; the limit must not be passed. -/
def readDelimited (bs : Bytes) : Option (Bytes × Bytes) :=
  (readSize bs).bind fun p =>
    if p.1 ≤ p.2.length then some (p.2.take p.1, p.2.drop p.1) else none

/-- A value with its size in front. -/
def writeDelimited (value : Bytes) : Bytes := writeVarint value.length ++ value

theorem readTag_writeVarint {n : Nat} (rest : Bytes) (hn : n < 2 ^ 32) :
    readTag (writeVarint n ++ rest) = some (n, rest) := by
  rw [readTag, readVarint_writeVarint rest (by omega) (by omega) (by omega),
    Nat.mod_eq_of_lt hn]

theorem readSize_writeVarint {n : Nat} (rest : Bytes) (hn : n ≤ maxSize) :
    readSize (writeVarint n ++ rest) = some (n, rest) := by
  have hlt : n < 2 ^ 31 := Nat.lt_of_le_of_lt hn (by decide)
  rw [readSize, readVarint_writeVarint rest (by omega) (by omega) (by omega), Option.bind_some,
    Nat.mod_eq_of_lt (by omega), if_pos hn]

theorem readDelimited_writeDelimited {value : Bytes} (rest : Bytes)
    (h : value.length ≤ maxSize) :
    readDelimited (writeDelimited value ++ rest) = some (value, rest) := by
  rw [readDelimited, writeDelimited, List.append_assoc, readSize_writeVarint _ h,
    Option.bind_some, if_pos (by simp), List.take_left, List.drop_left]

theorem length_le_writeDelimited (value : Bytes) :
    value.length ≤ (writeDelimited value).length := by
  rw [writeDelimited, List.length_append]
  exact Nat.le_add_left _ _

/-! ## Numbers of fixed width -/

/-- `k` bytes, least significant first. -/
def writeLittle : Nat → Nat → Bytes
  | 0, _ => []
  | k + 1, n => UInt8.ofNat (n % 256) :: writeLittle k (n / 256)

/-- `UnalignedLoad` of `k` bytes. -/
def readLittle : Nat → Bytes → Option (Nat × Bytes)
  | 0, bs => some (0, bs)
  | _ + 1, [] => none
  | k + 1, byte :: rest => (readLittle k rest).map fun p => (byte.toNat + 256 * p.1, p.2)

theorem readLittle_writeLittle {k n : Nat} (rest : Bytes) (hn : n < 256 ^ k) :
    readLittle k (writeLittle k n ++ rest) = some (n, rest) := by
  induction k generalizing n with
  | zero =>
    rw [pow_zero, Nat.lt_one_iff] at hn
    rw [hn]
    rfl
  | succ k ih =>
    have hdiv : n / 256 < 256 ^ k := Nat.div_lt_of_lt_mul (by rw [pow_succ'] at hn; exact hn)
    have hb : (UInt8.ofNat (n % 256)).toNat = n % 256 :=
      toNat_ofNat_small (Nat.mod_lt n (by omega))
    show (readLittle k (writeLittle k (n / 256) ++ rest)).map _ = _
    rw [ih hdiv, Option.map_some, hb, Nat.mod_add_div]

end Anx.Lib.Wire
