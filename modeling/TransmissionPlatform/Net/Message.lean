import TransmissionPlatform.Lib.LittleEndian

/-!
`net_msg.hpp` and the message ids of `msg.h`. A message body is a byte vector that
`operator<<` and `operator>>` use as a stack; a header is sent as its object bytes.
-/

set_option autoImplicit false

namespace TransmissionPlatform.Net
open LittleEndian

/-- The parameter `T` of the network classes: an enum whose underlying type is a 32-bit
integer, so every 32-bit value is a value of `T`. -/
class EnumId (T : Type) where
  toUInt32 : T → UInt32
  ofUInt32 : UInt32 → T
  ofUInt32_toUInt32 : ∀ t, ofUInt32 (toUInt32 t) = t
  toUInt32_ofUInt32 : ∀ n, toUInt32 (ofUInt32 n) = n

attribute [simp] EnumId.ofUInt32_toUInt32 EnumId.toUInt32_ofUInt32

/-- `enum class NetMsgType`. A peer may send any 32-bit value for it. -/
structure NetMsgType where
  raw : UInt32
  deriving DecidableEq, Repr

namespace NetMsgType

def kSeckeyAgree : NetMsgType := ⟨0⟩
def kSeckeyVerify : NetMsgType := ⟨1⟩
def kSeckeyLogout : NetMsgType := ⟨2⟩
def kFailed : NetMsgType := ⟨3⟩

instance : EnumId NetMsgType where
  toUInt32 := raw
  ofUInt32 := mk
  ofUInt32_toUInt32 _ := rfl
  toUInt32_ofUInt32 _ := rfl

end NetMsgType

structure MessageHeader (T : Type) where
  id : T
  size : UInt32 := 0
  deriving DecidableEq, Repr

def MessageHeader.sizeOf : Nat := 8

/-- The object bytes of a header, as `asio::buffer(&header, sizeof(header))` sends them. -/
def MessageHeader.bytes {T : Type} [EnumId T] (h : MessageHeader T) : List UInt8 :=
  ofUInt32 (EnumId.toUInt32 h.id) ++ ofUInt32 h.size

def MessageHeader.ofBytes {T : Type} [EnumId T] (bs : List UInt8) : MessageHeader T :=
  ⟨EnumId.ofUInt32 (toUInt32 (bs.take 4)), toUInt32 (bs.drop 4)⟩

@[simp] theorem MessageHeader.bytes_length {T : Type} [EnumId T] (h : MessageHeader T) :
    h.bytes.length = MessageHeader.sizeOf := by
  simp [bytes, sizeOf]

@[simp] theorem MessageHeader.ofBytes_bytes {T : Type} [EnumId T] (h : MessageHeader T) :
    MessageHeader.ofBytes h.bytes = h := by
  have hlen : (ofUInt32 (EnumId.toUInt32 h.id)).length = 4 := ofUInt32_length _
  rw [ofBytes, bytes, List.take_left' hlen, List.drop_left' hlen]
  simp

theorem MessageHeader.bytes_ofBytes {T : Type} [EnumId T] {bs : List UInt8}
    (h : bs.length = MessageHeader.sizeOf) :
    (MessageHeader.ofBytes bs : MessageHeader T).bytes = bs := by
  have hlen : bs.length = 8 := h
  have hid : (bs.take 4).length = 4 := by
    rw [List.length_take]
    omega
  have hsize : (bs.drop 4).length = 4 := by
    rw [List.length_drop]
    omega
  simp only [ofBytes, bytes, EnumId.toUInt32_ofUInt32]
  rw [ofUInt32_toUInt32 hid, ofUInt32_toUInt32 hsize, List.take_append_drop]

structure Message (T : Type) where
  header : MessageHeader T
  body : List UInt8 := []
  deriving DecidableEq, Repr

namespace Message
variable {T : Type}

def empty [EnumId T] : Message T := ⟨⟨EnumId.ofUInt32 0,0⟩,[]⟩

def size (msg : Message T) : Nat := msg.body.length

/-- `operator<<` with the object bytes of the value pushed. -/
def push (msg : Message T) (data : List UInt8) : Message T :=
  let body := msg.body ++ data
  { header := { msg.header with size := UInt32.ofNat body.length }, body := body }

/-- `operator>>` into an object of `n` bytes: the bytes taken off the end of the body and
the message left. Undefined (`none`) when the body is shorter than the object. -/
def pop (msg : Message T) (n : Nat) : Option (List UInt8 × Message T) :=
  if n ≤ msg.body.length then
    let sizeLater := msg.body.length - n
    let body := msg.body.take sizeLater
    some (msg.body.drop sizeLater,
      { header := { msg.header with size := UInt32.ofNat body.length }, body := body })
  else none

/-- What `WriteHeader` and then `WriteBody`, for a body that is not empty, put on the wire. -/
def frame [EnumId T] (msg : Message T) : List UInt8 := msg.header.bytes ++ msg.body

/-- The header announces the body that follows it. Every message that `operator<<` built,
with a body below 4 GiB, is like this. -/
def Announced (msg : Message T) : Prop := msg.header.size.toNat = msg.body.length

instance (msg : Message T) : Decidable msg.Announced :=
  inferInstanceAs (Decidable (msg.header.size.toNat = msg.body.length))

theorem announced_push (msg : Message T) (data : List UInt8)
    (h : (msg.body ++ data).length < 2 ^ 32) : (msg.push data).Announced := by
  simp only [Announced, push]
  exact UInt32.toNat_ofNat_of_lt' h

end Message

structure OwnedMessage (T : Type) where
  remote : Option Nat := none
  msg : Message T
  deriving DecidableEq, Repr

end TransmissionPlatform.Net
