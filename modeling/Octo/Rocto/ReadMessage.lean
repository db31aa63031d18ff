import Octo.Rocto.ReadBindSections

/-!
# Reading a message from the connection

`read_message` reads the type and the length of a message, makes the buffer large enough for the
rest and reads it. `read_bytes` asks the connection until it has all bytes. The sizes are computed
from the length with conversions to `int32_t`.
-/
namespace Octo.Rocto

open List

/-! ## The connection -/

/-- What `recv` or `gtm_tls_recv` comes to. -/
inductive Recv
  | data (bytes : List UInt8)
  /-- `EINTR`, or `GTMTLS_WANT_READ`. -/
  | again
  | connectionReset
  | failed

/-- How reading ends without a message. -/
inductive ReadFailure
  /-- The result -1. -/
  | failed
  /-- The result -2. -/
  | disconnected
  /-- `malloc` has returned no buffer for the bytes that are copied. -/
  | nullBuffer

/-- The bytes that arrive. -/
def stream : List Recv → List UInt8
  | [] => []
  | .data bytes :: events => bytes ++ stream events
  | _ :: events => stream events

/-- The loops of `read_bytes`. The connection is closed behind the last event, and what is not asked
for is left for the next call. -/
def readLoop (sslActive : Bool) : Nat → List Recv → Except ReadFailure (List UInt8 × List Recv)
  | 0, events => .ok ([], events)
  | _, [] => .error .disconnected
  | wanted, .data bytes :: events =>
    if bytes = [] ∧ !sslActive then .error .disconnected
    else if wanted < bytes.length then
      .ok (bytes.take wanted, .data (bytes.drop wanted) :: events)
    else do
      let (more, later) ← readLoop sslActive (wanted - bytes.length) events
      .ok (bytes ++ more, later)
  | wanted, .again :: events => readLoop sslActive wanted events
  | _, .connectionReset :: _ => .error (if sslActive then .disconnected else .failed)
  | _, .failed :: _ => .error .failed

/-- `read_bytes`, which does not resize the buffer here. -/
def readBytes (sslActive : Bool) (bytesToRead : Int) (events : List Recv) :
    Except ReadFailure (List UInt8 × List Recv) :=
  if bytesToRead < 0 then .error .failed else readLoop sslActive bytesToRead.toNat events

/-! ## The message -/

/-- `ntohl`. -/
def ntohl (bytes : List UInt8) : Nat :=
  bytes.foldl (fun number byte => 256 * number + byte.toNat) 0

/-- The sizes that are computed for the rest of a message. -/
structure Sizes where
  bytesToRead : Int
  bufferSize : Int
  tmpLen : Int

/-- The buffer is enlarged for the type and the length, and for the rest of the message. -/
def sizes (bufferSize : Int) (length : Nat) : Sizes :=
  let bufferSize := max bufferSize 5
  let bytesToRead := (length - 4 : Int).bmod 4294967296
  let bufferSize :=
    if bytesToRead > bufferSize - 5 then (length + 2 : Int).bmod 4294967296 else bufferSize
  ⟨bytesToRead, bufferSize, (bufferSize - 5).bmod 4294967296⟩

/-- A message in its buffer. -/
structure BaseMessage where
  /-- The type and the length. -/
  header : List UInt8
  data : List UInt8
  sizes : Sizes

/-- The length that a message names. -/
def BaseMessage.length (message : BaseMessage) : Nat :=
  ntohl (message.header.drop 1)

/-- `read_message`. A negative size is an enormous `size_t`. -/
def readMessage (sslActive : Bool) (bufferSize : Int) (events : List Recv) :
    Except ReadFailure (BaseMessage × List Recv) := do
  let (header, rest) ← readBytes sslActive 5 events
  let sizes := sizes bufferSize (ntohl (header.drop 1))
  if sizes.bufferSize < 0 then .error .nullBuffer
  else
    let (data, later) ← readBytes sslActive sizes.bytesToRead rest
    .ok (⟨header, data, sizes⟩, later)

/-! ## What is read -/

variable {sslActive : Bool} {events later : List Recv} {bytes : List UInt8}

/-- The loop returns the next bytes, as many as are asked for. -/
theorem readLoop_eq_ok {wanted : Nat} (read : readLoop sslActive wanted events =
    .ok (bytes, later)) :
    stream events = bytes ++ stream later ∧ bytes.length = wanted := by
  fun_induction readLoop sslActive wanted events generalizing bytes with
  | case1 =>
    cases read
    exact ⟨rfl, rfl⟩
  | case4 wanted _ chunk events _ longer =>
    cases read
    rw [stream, stream, ← append_assoc, take_append_drop, length_take]
    exact ⟨rfl, by omega⟩
  | case5 wanted _ chunk events _ shorter ih =>
    obtain ⟨⟨more, rest⟩, readMore, same⟩ := ok_of_bind_eq_ok read
    cases same
    obtain ⟨next, counted⟩ := ih readMore
    rw [stream, next, append_assoc, length_append]
    exact ⟨rfl, by omega⟩
  | case6 wanted _ events ih => exact ih read
  | case2 | case3 | case7 | case8 => cases read

theorem readBytes_eq_ok {bytesToRead : Int}
    (read : readBytes sslActive bytesToRead events = .ok (bytes, later)) :
    stream events = bytes ++ stream later ∧ bytes.length = bytesToRead := by
  unfold readBytes at read
  split at read
  · cases read
  · obtain ⟨next, counted⟩ := readLoop_eq_ok read
    exact ⟨next, by omega⟩

/-- No size has wrapped around, and the buffer has room for the type, the message and a
terminator. -/
structure Sizes.Right (sizes : Sizes) (bufferSize : Int) (length : Nat) : Prop where
  bytesToRead : sizes.bytesToRead = length - 4
  bufferSize : sizes.bufferSize = max bufferSize 5 ∨ sizes.bufferSize = length + 2
  tmpLen : sizes.tmpLen = sizes.bufferSize - 5
  room : 4 ≤ length → length + 2 ≤ sizes.bufferSize

theorem right_sizes_iff {bufferSize : Int} {length : Nat} (isInt32 : bufferSize < 2147483648)
    (isUint32 : length < 4294967296) :
    (sizes bufferSize length).Right bufferSize length ↔
      length + 2 < 2147483648 ∧ length + 1 ≠ max bufferSize 5 := by
  unfold sizes Int.bmod
  constructor
  · rintro ⟨read, size, -, room⟩
    dsimp only at read size room
    omega
  · intro fits
    constructor <;> dsimp only <;> omega

/-- What `read_message` returns is the next message of the stream, for every length field and every
size of the buffer. The sizes are right, unless the length does not fit or the message fills the
buffer exactly. -/
theorem readMessage_right_iff (bufferSize : Int32) (length : UInt32) :
    (∀ sslActive events message later,
      readMessage sslActive bufferSize.toInt events = .ok (message, later) →
        message.length = length.toNat →
          stream events = message.header ++ message.data ++ stream later ∧
            message.header.length = 5 ∧ message.data.length + 4 = length.toNat ∧
            message.sizes = sizes bufferSize.toInt length.toNat) ∧
      ((sizes bufferSize.toInt length.toNat).Right bufferSize.toInt length.toNat ↔
        length.toNat + 2 < 2147483648 ∧ length.toNat + 1 ≠ max bufferSize.toInt 5) := by
  refine ⟨fun sslActive events message later read named => ?_,
    right_sizes_iff bufferSize.toInt_lt length.toNat_lt⟩
  obtain ⟨⟨header, rest⟩, readHeader, read⟩ := ok_of_bind_eq_ok read
  dsimp only at read
  split at read
  · cases read
  · obtain ⟨⟨data, behind⟩, readData, same⟩ := ok_of_bind_eq_ok read
    cases same
    obtain ⟨inHeader, five⟩ := readBytes_eq_ok readHeader
    obtain ⟨inData, counted⟩ := readBytes_eq_ok readData
    have isUint32 := length.toNat_lt
    rw [← named] at isUint32 ⊢
    refine ⟨by rw [inHeader, inData, append_assoc], by exact_mod_cast five, ?_, rfl⟩
    unfold sizes Int.bmod at counted
    rw [BaseMessage.length] at isUint32 ⊢
    dsimp only at counted isUint32 ⊢
    omega

/-- A Sync message fills a buffer of five bytes, and a message of 2147483646 bytes makes the size of
the buffer negative. -/
theorem readMessage_noTerminator :
    (∃ message, readMessage false 5 [.data [83, 0, 0, 0, 4]] = .ok (message, []) ∧
        ¬ message.sizes.Right 5 message.length) ∧
      ¬ (sizes 5 2147483646).Right 5 2147483646 := by
  refine ⟨⟨_, rfl, fun right => ?_⟩, fun right => ?_⟩
  · exact absurd (right.room (by decide)) (by decide)
  · exact absurd (right.room (by decide)) (by decide)

end Octo.Rocto
