import Mathlib.Data.UInt
import VcsClient.Lib.BigEndian

/-!
# The VCS wire packet

`internal/voice/packet.go`: a 27-byte header (magic, version and type nibbles,
flags, 24-bit sequence, 24-bit frequency, sender UUID) and the payload.
`Packet.appendTo` writes it, `parse` reads it; the three-byte and eight-byte
fields are big-endian strings (`VcsClient.Lib.beBytes`). `parse_append` is the
round trip of one packet, `appendTo_of_parse` the round trip of one accepted
datagram, `parse_ok_iff` the language `parse` accepts.

`uuid.FromBytes` belongs to a library outside the repository: it is the
parameter `fromBytes`, and `FromBytesSpec` is what the code relies on.
-/

namespace VcsClient.Voice

open VcsClient.Lib

def headerSize : ℕ := 27

/-- The bytes of `"VCS"`. -/
def magicVCS : List UInt8 := [0x56, 0x43, 0x53]

def protocolVersion : UInt8 := 1

def wireMask24 : UInt32 := 0xFFFFFF

structure UUID where
  bytes : List UInt8
  length_eq : bytes.length = 16
  deriving DecidableEq

/-- `uuid.Nil`. -/
def UUID.nil : UUID := ⟨List.replicate 16 0, rfl⟩

/-- The UUID of a sender in examples. -/
def talkerID : UUID := ⟨List.replicate 16 1, rfl⟩

abbrev KHz := UInt32

abbrev PacketType := UInt8

def packetTypeVoice : PacketType := 0
def packetTypeHello : PacketType := 1
def packetTypeHelloAck : PacketType := 2
def packetTypeKeepalive : PacketType := 3
def packetTypeBye : PacketType := 4

structure Packet where
  type : PacketType
  flags : UInt8
  sequence : UInt32
  frequency : KHz
  senderID : UUID
  payload : List UInt8
  deriving DecidableEq

def flagPTT : UInt8 := 0x01
def flagIntercom : UInt8 := 0x02

/-- Set or clear one flag bit. -/
def Packet.setFlag (p : Packet) (flag : UInt8) (active : Bool) : Packet :=
  { p with flags := if active then p.flags ||| flag else p.flags &&& ~~~flag }

def Packet.setPTT (p : Packet) (active : Bool) : Packet := p.setFlag flagPTT active

def Packet.setIntercom (p : Packet) (active : Bool) : Packet := p.setFlag flagIntercom active

/-- The three bytes of a masked 24-bit field. -/
def be24 (x : UInt32) : List UInt8 :=
  [(x >>> 16).toUInt8, (x >>> 8).toUInt8, x.toUInt8]

/-- The header `AppendTo` fills. -/
def Packet.header (p : Packet) : List UInt8 :=
  magicVCS ++ [(protocolVersion <<< 4) ||| p.type, p.flags] ++
    be24 (p.sequence &&& wireMask24) ++ be24 (p.frequency &&& wireMask24) ++ p.senderID.bytes

def Packet.appendTo (p : Packet) (dst : List UInt8) : List UInt8 :=
  dst ++ p.header ++ p.payload

inductive ParseError where
  | tooShort (len : ℕ)
  | badMagic (magic : List UInt8)
  | unsupportedVersion (version : UInt8)
  | invalidSenderID (err : String)
  deriving DecidableEq

/-- The format of each error's text; the constructor carries its arguments. -/
def ParseError.reason : ParseError → String
  | .tooShort _ => "voice: packet too short: %d bytes, want at least 27"
  | .badMagic _ => "voice: bad magic: %q"
  | .unsupportedVersion _ => "voice: unsupported protocol version: %d"
  | .invalidSenderID _ => "voice: invalid sender id: %v"

/-- The field at `data[i:i+3]`. -/
def field24 (data : List UInt8) (i : ℕ) : UInt32 :=
  ((data.getD i 0).toUInt32 <<< 16) ||| ((data.getD (i + 1) 0).toUInt32 <<< 8) |||
    (data.getD (i + 2) 0).toUInt32

/-- What the code relies on: `uuid.FromBytes` takes any sixteen bytes as they are. -/
def FromBytesSpec (fromBytes : List UInt8 → Except String UUID) : Prop :=
  ∀ u : UUID, fromBytes u.bytes = .ok u

def parse (fromBytes : List UInt8 → Except String UUID) (data : List UInt8) :
    Except ParseError Packet :=
  if data.length < headerSize then .error (.tooShort data.length)
  else if data.take 3 ≠ magicVCS then .error (.badMagic (data.take 3))
  else
    let versionType := data.getD 3 0
    let version := versionType >>> 4
    if version ≠ protocolVersion then .error (.unsupportedVersion version)
    else
      match fromBytes ((data.drop 11).take 16) with
      | .error err => .error (.invalidSenderID err)
      | .ok senderID =>
        .ok { type := versionType &&& 0x0F
              flags := data.getD 4 0
              sequence := field24 data 5
              frequency := field24 data 8
              senderID := senderID
              payload := data.drop headerSize }

def newHello (sender : UUID) (secret : List UInt8) : Packet :=
  ⟨packetTypeHello, 0, 0, 0, sender, secret⟩

def newVoice (sender : UUID) (seq : UInt32) (freq : KHz) (opus : List UInt8)
    (ptt intercom : Bool) : Packet :=
  ((Packet.mk packetTypeVoice 0 seq freq sender opus).setPTT ptt).setIntercom intercom

/-- `binary.BigEndian.PutUint64`. -/
def putUint64 (v : UInt64) : List UInt8 :=
  [(v >>> 56).toUInt8, (v >>> 48).toUInt8, (v >>> 40).toUInt8, (v >>> 32).toUInt8,
   (v >>> 24).toUInt8, (v >>> 16).toUInt8, (v >>> 8).toUInt8, v.toUInt8]

/-- `binary.BigEndian.Uint64`. -/
def uint64 (b : List UInt8) : UInt64 :=
  (b.getD 7 0).toUInt64 ||| ((b.getD 6 0).toUInt64 <<< 8) ||| ((b.getD 5 0).toUInt64 <<< 16) |||
    ((b.getD 4 0).toUInt64 <<< 24) ||| ((b.getD 3 0).toUInt64 <<< 32) |||
    ((b.getD 2 0).toUInt64 <<< 40) ||| ((b.getD 1 0).toUInt64 <<< 48) |||
    ((b.getD 0 0).toUInt64 <<< 56)

/-- A zero `echo` is nothing to echo yet: the payload stays empty. -/
def newKeepalive (sender : UUID) (echo : Int64) : Packet :=
  ⟨packetTypeKeepalive, 0, 0, 0, sender, if echo = 0 then [] else putUint64 echo.toUInt64⟩

def newBye (sender : UUID) : Packet :=
  ⟨packetTypeBye, 0, 0, 0, sender, []⟩

def keepaliveTimestamp (payload : List UInt8) : Int64 :=
  if payload.length < 8 then 0 else (uint64 (payload.take 8)).toInt64

/-! ## Fields -/

theorem be24_eq (x : UInt32) : be24 x = beBytes 3 x.toNat := by
  simp only [be24, beBytes, List.cons.injEq]
  refine ⟨?_, ?_, ?_, trivial⟩ <;> apply UInt8.toNat_inj.1 <;> simp [Nat.shiftRight_eq_div_pow]

theorem putUint64_eq (v : UInt64) : putUint64 v = beBytes 8 v.toNat := by
  simp only [putUint64, beBytes, List.cons.injEq]
  refine ⟨?_, ?_, ?_, ?_, ?_, ?_, ?_, ?_, trivial⟩ <;> apply UInt8.toNat_inj.1 <;>
    simp [Nat.shiftRight_eq_div_pow]

theorem shiftLeft_mod (b : UInt8) {k w : ℕ} (h : k + 8 ≤ w) :
    b.toNat <<< k % 2 ^ w = b.toNat <<< k := by
  apply Nat.mod_eq_of_lt
  calc b.toNat <<< k = b.toNat * 2 ^ k := Nat.shiftLeft_eq ..
    _ < 2 ^ 8 * 2 ^ k := Nat.mul_lt_mul_of_pos_right b.toNat_lt (by positivity)
    _ = 2 ^ (k + 8) := by ring
    _ ≤ 2 ^ w := Nat.pow_le_pow_right (by omega) h

theorem toNat_or24 (a b c : UInt8) :
    (a.toUInt32 <<< 16 ||| b.toUInt32 <<< 8 ||| c.toUInt32).toNat = beNat [a, b, c] := by
  have ha := shiftLeft_mod a (k := 16) (w := 32) (by omega)
  have hb := shiftLeft_mod b (k := 8) (w := 32) (by omega)
  rw [beNat_cons_or, beNat_cons_or, beNat_cons_or]
  simp only [UInt32.toNat_or, UInt32.toNat_shiftLeft, UInt8.toNat_toUInt32, UInt32.reduceToNat,
    Nat.reduceMod, ha, hb]
  simp [beNat, Nat.or_assoc]

theorem or_reverse (a b c d e f g h : ℕ) :
    a ||| (b ||| (c ||| (d ||| (e ||| (f ||| (g ||| h)))))) =
      h ||| g ||| f ||| e ||| d ||| c ||| b ||| a := by
  ac_rfl

theorem toNat_uint64 (a b c d e f g h : UInt8) :
    (uint64 [a, b, c, d, e, f, g, h]).toNat = beNat [a, b, c, d, e, f, g, h] := by
  have hs (b : UInt8) (k : ℕ) (hk : k + 8 ≤ 64) : b.toNat <<< k % 2 ^ 64 = b.toNat <<< k :=
    shiftLeft_mod b hk
  have hnil : beNat [] = 0 := rfl
  simp only [beNat_cons_or, List.length_cons, List.length_nil, Nat.zero_add, Nat.reduceAdd,
    Nat.reduceMul, Nat.mul_zero, Nat.shiftLeft_zero, hnil, Nat.or_zero]
  simp only [uint64, List.getD_cons_zero, List.getD_cons_succ, UInt64.toNat_or,
    UInt64.toNat_shiftLeft, UInt8.toNat_toUInt64, UInt64.reduceToNat, Nat.reduceMod]
  rw [hs, hs, hs, hs, hs, hs, hs]
  · exact (or_reverse ..).symm
  all_goals decide

theorem uint64_putUint64 (v : UInt64) : uint64 (putUint64 v) = v := by
  apply UInt64.toNat_inj.1
  rw [putUint64, toNat_uint64, ← putUint64, putUint64_eq, beNat_beBytes]
  exact Nat.mod_eq_of_lt v.toNat_lt

theorem toNat_mask24 (x : UInt32) : (x &&& wireMask24).toNat = x.toNat % 2 ^ 24 := by
  rw [UInt32.toNat_and]
  exact Nat.and_two_pow_sub_one_eq_mod x.toNat 24

theorem mask24_of_lt {x : UInt32} (h : x < 2 ^ 24) : x &&& wireMask24 = x := by
  apply UInt32.toNat_inj.1
  rw [toNat_mask24]
  exact Nat.mod_eq_of_lt (UInt32.lt_iff_toNat_lt.1 h)

/-- Reading the three bytes of a masked field gives the masked field. -/
theorem or24_be24 (x : UInt32) :
    (((x &&& wireMask24) >>> 16).toUInt8.toUInt32 <<< 16 |||
      ((x &&& wireMask24) >>> 8).toUInt8.toUInt32 <<< 8 |||
      (x &&& wireMask24).toUInt8.toUInt32) = x &&& wireMask24 := by
  apply UInt32.toNat_inj.1
  rw [toNat_or24, ← be24, be24_eq, beNat_beBytes, toNat_mask24]
  exact Nat.mod_mod ..

theorem be24_or24 (a b c : UInt8) :
    be24 ((a.toUInt32 <<< 16 ||| b.toUInt32 <<< 8 ||| c.toUInt32) &&& wireMask24) = [a, b, c] := by
  have hlt := beNat_lt [a, b, c]
  rw [be24_eq, toNat_mask24, toNat_or24, Nat.mod_eq_of_lt (by simpa using hlt)]
  exact beBytes_beNat [a, b, c]

theorem versionType_of_lt (t : UInt8) : t < 16 →
    ((protocolVersion <<< 4) ||| t) >>> 4 = protocolVersion ∧
      ((protocolVersion <<< 4) ||| t) &&& 0x0F = t := by
  obtain ⟨v⟩ := t
  revert v
  decide

theorem versionType_of_version (b : UInt8) : b >>> 4 = protocolVersion →
    (protocolVersion <<< 4) ||| (b &&& 0x0F) = b := by
  obtain ⟨v⟩ := b
  revert v
  decide

/-! ## Round trips -/

/-- A datagram of at least `headerSize` bytes, cut at the fields. -/
theorem exists_fields {d : List UInt8} (h : headerSize ≤ d.length) :
    ∃ m0 m1 m2 t f s0 s1 s2 q0 q1 q2, ∃ (u : UUID) (rest : List UInt8),
      d = [m0, m1, m2, t, f, s0, s1, s2, q0, q1, q2] ++ u.bytes ++ rest := by
  match d, h with
  | m0 :: m1 :: m2 :: t :: f :: s0 :: s1 :: s2 :: q0 :: q1 :: q2 :: d, h =>
    have hlen : (d.take 16).length = 16 := by
      simp only [headerSize, List.length_cons] at h
      rw [List.length_take]; omega
    exact ⟨m0, m1, m2, t, f, s0, s1, s2, q0, q1, q2, ⟨d.take 16, hlen⟩, d.drop 16, by simp⟩

section Parse

variable {fromBytes : List UInt8 → Except String UUID}

theorem parse_fields (hfrom : FromBytesSpec fromBytes) (m0 m1 m2 t f s0 s1 s2 q0 q1 q2 : UInt8)
    (u : UUID) (rest : List UInt8) :
    parse fromBytes ([m0, m1, m2, t, f, s0, s1, s2, q0, q1, q2] ++ u.bytes ++ rest) =
      if [m0, m1, m2] ≠ magicVCS then .error (.badMagic [m0, m1, m2])
      else if t >>> 4 ≠ protocolVersion then .error (.unsupportedVersion (t >>> 4))
      else .ok ⟨t &&& 0x0F, f, s0.toUInt32 <<< 16 ||| s1.toUInt32 <<< 8 ||| s2.toUInt32,
        q0.toUInt32 <<< 16 ||| q1.toUInt32 <<< 8 ||| q2.toUInt32, u, rest⟩ := by
  have hlen := u.length_eq
  have htake : (u.bytes ++ rest).take 16 = u.bytes := by rw [← hlen, List.take_left]
  have hdrop : (u.bytes ++ rest).drop 16 = rest := by rw [← hlen, List.drop_left]
  have hlong : ¬ ([m0, m1, m2, t, f, s0, s1, s2, q0, q1, q2] ++ u.bytes ++ rest).length <
      headerSize := by
    simp only [List.length_append, List.length_cons, headerSize]; omega
  rw [parse, if_neg hlong]
  simp only [headerSize, field24, List.cons_append, List.nil_append, List.take_succ_cons,
    List.take_zero, List.drop_succ_cons, List.drop_zero, List.getD_cons_zero, List.getD_cons_succ,
    htake, hdrop, hfrom u]

/-- The packet with each 24-bit field cut to its own 24 bits. -/
def Packet.truncate (p : Packet) : Packet :=
  { p with sequence := p.sequence &&& wireMask24, frequency := p.frequency &&& wireMask24 }

theorem appendTo_truncate (p : Packet) (dst : List UInt8) :
    p.truncate.appendTo dst = p.appendTo dst := by
  simp [Packet.appendTo, Packet.header, Packet.truncate, UInt32.and_assoc]

theorem parse_append (hfrom : FromBytesSpec fromBytes) (p : Packet) (dst : List UInt8)
    (htype : p.type < 16) :
    parse fromBytes ((p.appendTo dst).drop dst.length) = .ok p.truncate := by
  obtain ⟨hver, hlow⟩ := versionType_of_lt p.type htype
  rw [Packet.appendTo, List.append_assoc, List.drop_left]
  have h := parse_fields hfrom 0x56 0x43 0x53 ((protocolVersion <<< 4) ||| p.type) p.flags
    ((p.sequence &&& wireMask24) >>> 16).toUInt8 ((p.sequence &&& wireMask24) >>> 8).toUInt8
    (p.sequence &&& wireMask24).toUInt8 ((p.frequency &&& wireMask24) >>> 16).toUInt8
    ((p.frequency &&& wireMask24) >>> 8).toUInt8 (p.frequency &&& wireMask24).toUInt8
    p.senderID p.payload
  rw [if_neg (by decide), if_neg (by simp [hver]), hlow, or24_be24, or24_be24] at h
  exact h

/-- `parse` accepts exactly the long enough datagrams with the magic and version 1. -/
theorem parse_ok_iff (hfrom : FromBytesSpec fromBytes) (d : List UInt8) :
    (∃ p, parse fromBytes d = .ok p) ↔
      headerSize ≤ d.length ∧ d.take 3 = magicVCS ∧ d.getD 3 0 >>> 4 = protocolVersion := by
  by_cases hlong : headerSize ≤ d.length
  · obtain ⟨m0, m1, m2, t, f, s0, s1, s2, q0, q1, q2, u, rest, rfl⟩ := exists_fields hlong
    rw [parse_fields hfrom]
    by_cases hm : [m0, m1, m2] = magicVCS
    · by_cases hv : t >>> 4 = protocolVersion
      · simp only [hm, hv, not_true_eq_false, ne_eq, ↓reduceIte]
        exact ⟨fun _ => ⟨hlong, hm, hv⟩, fun _ => ⟨_, rfl⟩⟩
      · rw [if_neg (not_not.2 hm), if_pos hv]
        exact ⟨fun ⟨_, h⟩ => (nomatch h), fun h => absurd h.2.2 hv⟩
    · rw [if_pos hm]
      exact ⟨fun ⟨_, h⟩ => (nomatch h), fun h => absurd h.2.1 hm⟩
  · rw [parse, if_pos (by omega)]
    exact ⟨fun ⟨_, h⟩ => (nomatch h), fun h => absurd h.1 hlong⟩

/-- **An accepted datagram re-encodes to itself.** -/
theorem appendTo_of_parse (hfrom : FromBytesSpec fromBytes) {d : List UInt8} {p : Packet}
    (h : parse fromBytes d = .ok p) : p.appendTo [] = d := by
  obtain ⟨hlong, hm, hv⟩ := (parse_ok_iff hfrom d).1 ⟨p, h⟩
  obtain ⟨m0, m1, m2, t, f, s0, s1, s2, q0, q1, q2, u, rest, rfl⟩ := exists_fields hlong
  replace hm : [m0, m1, m2] = magicVCS := hm
  replace hv : t >>> 4 = protocolVersion := hv
  rw [parse_fields hfrom, if_neg (not_not.2 hm), if_neg (not_not.2 hv)] at h
  cases h
  simp only [Packet.appendTo, Packet.header, be24_or24, versionType_of_version t hv, ← hm,
    List.nil_append, List.cons_append]

end Parse

theorem keepaliveTimestamp_newKeepalive (sender : UUID) (e : Int64) :
    keepaliveTimestamp (newKeepalive sender e).payload = e := by
  by_cases he : e = 0
  · simp [newKeepalive, keepaliveTimestamp, he]
  · have hlen : (putUint64 e.toUInt64).length = 8 := rfl
    have htake : (putUint64 e.toUInt64).take 8 = putUint64 e.toUInt64 := rfl
    simp only [newKeepalive, keepaliveTimestamp, he, ↓reduceIte, hlen, Nat.lt_irrefl, htake,
      uint64_putUint64]
    exact Int64.toInt64_toUInt64 e

/-! ## The codec -/

/-- **The wire codec.** Encoding then parsing gives the packet back when its
type is a nibble and its fields fit, and truncates the two 24-bit fields
otherwise; an accepted datagram re-encodes byte for byte; `parse` accepts
exactly the versioned datagrams; keepalive timestamps survive the wire. -/
theorem wire_codec (fromBytes : List UInt8 → Except String UUID) (hfrom : FromBytesSpec fromBytes) :
    (∀ (p : Packet) (dst : List UInt8), p.type < 16 → p.sequence < 2 ^ 24 → p.frequency < 2 ^ 24 →
      parse fromBytes ((p.appendTo dst).drop dst.length) = .ok p) ∧
    (∀ (p : Packet) (dst : List UInt8), p.truncate.appendTo dst = p.appendTo dst ∧
      (p.type < 16 → parse fromBytes ((p.appendTo dst).drop dst.length) = .ok p.truncate)) ∧
    (∀ (d : List UInt8) (p : Packet), parse fromBytes d = .ok p → p.appendTo [] = d) ∧
    (∀ d : List UInt8, (∃ p, parse fromBytes d = .ok p) ↔
      27 ≤ d.length ∧ d.take 3 = magicVCS ∧ d.getD 3 0 >>> 4 = 1) ∧
    (∀ (sender : UUID) (e : Int64), keepaliveTimestamp (newKeepalive sender e).payload = e) := by
  refine ⟨fun p dst ht hs hf => ?_,
    fun p dst => ⟨appendTo_truncate p dst, parse_append hfrom p dst⟩,
    fun d p h => appendTo_of_parse hfrom h, parse_ok_iff hfrom, keepaliveTimestamp_newKeepalive⟩
  have htrunc : p.truncate = p := by
    simp only [Packet.truncate, mask24_of_lt hs, mask24_of_lt hf]
  rw [parse_append hfrom p dst ht, htrunc]

/-- `uuid.FromBytes` as its documentation has it. -/
def uuidFromBytes (b : List UInt8) : Except String UUID :=
  if h : b.length = 16 then .ok ⟨b, h⟩ else .error "invalid UUID"

theorem uuidFromBytes_spec : FromBytesSpec uuidFromBytes := fun u => dif_pos u.length_eq

theorem wire_codec_uuid :
    parse uuidFromBytes (((newVoice .nil 7 30000 [1, 2] true false).appendTo [0]).drop 1) =
      .ok (newVoice .nil 7 30000 [1, 2] true false) :=
  (wire_codec uuidFromBytes uuidFromBytes_spec).1 (newVoice .nil 7 30000 [1, 2] true false) [0]
    (by decide) (by decide) (by decide)

end VcsClient.Voice
