import Zestors.Lib.BigEndian
import Zestors.Messaging.Pending
import Zestors.Supervisor.Supervisee

/-!
# How messages between actors are laid out

A frame is a kind byte and the fields of that kind. The length of a name and the number of requests
take two bytes each, and whatever does not fit there is cut off, so that a frame comes out as it went
in if and only if they fit, or it is too large to be sent at all (`comesOut_iff`).
-/

namespace Zestors
open BigEndian

/-! ## Text -/

def utf8Bytes (s : String) : Bytes := s.toUTF8.data.toList

/-- `std::str::from_utf8`. -/
def fromUtf8 (bytes : Bytes) : Option String := String.fromUTF8? ⟨bytes.toArray⟩

theorem fromUtf8_utf8Bytes (s : String) : fromUtf8 (utf8Bytes s) = some s := by
  have hbytes : (⟨(utf8Bytes s).toArray⟩ : ByteArray) = s.toByteArray := by
    simp [utf8Bytes]
  rw [fromUtf8, hbytes, String.fromUTF8?, dif_pos s.isValidUTF8]
  rfl

theorem utf8Bytes_of_fromUtf8 {bytes : Bytes} {s : String} (h : fromUtf8 bytes = some s) :
    utf8Bytes s = bytes := by
  unfold fromUtf8 String.fromUTF8? at h
  split_ifs at h
  cases h
  simp [utf8Bytes, String.fromUTF8]

/-- A byte that goes on with a character. -/
def isContinuation (b : UInt8) : Bool := b &&& 0xC0 == 0x80

/-- The second byte of a character of three bytes or four, after the first. -/
def isSecond (b c : UInt8) : Bool :=
  if b == 0xE0 then 0xA0 ≤ c && c ≤ 0xBF
  else if b == 0xED then 0x80 ≤ c && c ≤ 0x9F
  else if b == 0xF0 then 0x90 ≤ c && c ≤ 0xBF
  else if b == 0xF4 then 0x80 ≤ c && c ≤ 0x8F
  else isContinuation c

/-- Takes `n` bytes that go on with a character whose bits so far are `bits`; where they are missing the
character is invalid, and ends there. -/
def continueChar (bits : ℕ) : ℕ → Bytes → Option Char × Bytes
  | 0, bytes => (some (Char.ofNat bits), bytes)
  | n + 1, c :: bytes =>
    if isContinuation c then continueChar (bits * 64 + (c &&& 0x3F).toNat) n bytes
    else (none, c :: bytes)
  | _ + 1, [] => (none, [])

/-- The character that begins with `b`, and what is left of the bytes. -/
def nextChar (b : UInt8) (bytes : Bytes) : Option Char × Bytes :=
  if b < 0x80 then (some (Char.ofNat b.toNat), bytes)
  else if 0xC2 ≤ b && b ≤ 0xDF then continueChar (b &&& 0x1F).toNat 1 bytes
  else if 0xE0 ≤ b && b ≤ 0xEF then
    if bytes.head?.any (isSecond b) then continueChar (b &&& 0x0F).toNat 2 bytes else (none, bytes)
  else if 0xF0 ≤ b && b ≤ 0xF4 then
    if bytes.head?.any (isSecond b) then continueChar (b &&& 0x07).toNat 3 bytes else (none, bytes)
  else (none, bytes)

/-- The characters of `fuel` steps at most, with a replacement character for each invalid one. -/
def lossyChars : ℕ → Bytes → List Char
  | _, [] => []
  | 0, _ => []
  | fuel + 1, b :: bytes =>
    (nextChar b bytes).1.getD '\uFFFD' :: lossyChars fuel (nextChar b bytes).2

/-- `String::from_utf8_lossy`. -/
def fromUtf8Lossy (bytes : Bytes) : String :=
  (fromUtf8 bytes).getD (String.ofList (lossyChars bytes.length bytes))

theorem fromUtf8Lossy_utf8Bytes (s : String) : fromUtf8Lossy (utf8Bytes s) = s := by
  rw [fromUtf8Lossy, fromUtf8_utf8Bytes, Option.getD_some]

/-! ## Frames -/

structure MessageId where
  uuid : BitVec 128
deriving DecidableEq

namespace Messaging

def maxMessageSize : ℕ := 4 * 1024 * 1024

inductive Frame
  | message (callId : Option UInt64) (target : Name) (msg : MessageId) (requests : List UInt64)
    (payload : Bytes)
  | reply (callId : UInt64) (result : Except RemoteError Bytes)

def kindMessage : UInt8 := 1
def kindReply : UInt8 := 2
def castTag : UInt8 := 0
def callTag : UInt8 := 1
def okTag : UInt8 := 0
def errTag : UInt8 := 1

/-- `BufMut::put_u64`. -/
def putU64 (x : UInt64) : Bytes := bigEndian 8 x.toNat

/-- `put_target`. `as u16` keeps the lower two bytes of the lengths. -/
def putTarget (target : Name) (msg : MessageId) (requests : List UInt64) : Bytes :=
  bigEndian 2 (utf8Bytes target.val).length ++ utf8Bytes target.val ++
    bigEndian 16 msg.uuid.toNat ++ bigEndian 2 requests.length ++ requests.flatMap putU64

/-- `put_error`. -/
def putError : RemoteError → Bytes
  | .unknownMessage => [1]
  | .noSuchActor => [2]
  | .notAccepted => [3]
  | .closed => [4]
  | .overloaded => [5]
  | .noReply => [6]
  | .decode reason => 7 :: utf8Bytes reason
  | .encode reason => 8 :: utf8Bytes reason
  | .tooLarge => [9]
  | .unknown => [0]

def getU8 : Bytes → Option (UInt8 × Bytes)
  | [] => none
  | b :: bytes => some (b, bytes)

def getU16 (bytes : Bytes) : Option (ℕ × Bytes) := read 2 bytes

def getU64 (bytes : Bytes) : Option (UInt64 × Bytes) :=
  (read 8 bytes).map fun (n, rest) => (UInt64.ofNat n, rest)

/-- Splits off as many bytes, if they are there. -/
def splitTo (len : ℕ) (bytes : Bytes) : Option (Bytes × Bytes) :=
  if bytes.length < len then none else some (bytes.take len, bytes.drop len)

/-- The next `count` requests. -/
def takeRequests : ℕ → Bytes → Option (List UInt64 × Bytes)
  | 0, bytes => some ([], bytes)
  | count + 1, bytes => do
    let (request, bytes) ← getU64 bytes
    let (requests, bytes) ← takeRequests count bytes
    some (request :: requests, bytes)

def getRequests (count : ℕ) (bytes : Bytes) : Option (List UInt64 × Bytes) :=
  if bytes.length < count * 8 then none else takeRequests count bytes

/-- `get_target`. -/
def getTarget (bytes : Bytes) : Option ((Name × MessageId × List UInt64) × Bytes) := do
  let (len, bytes) ← getU16 bytes
  let (name, bytes) ← splitTo len bytes
  let name ← fromUtf8 name
  let (id, bytes) ← read 16 bytes
  let (count, bytes) ← getU16 bytes
  let (requests, bytes) ← getRequests count bytes
  some ((⟨name⟩, ⟨BitVec.ofNat 128 id⟩, requests), bytes)

/-- `get_error`. -/
def getError (bytes : Bytes) : Option RemoteError := do
  let (tag, bytes) ← getU8 bytes
  some (match tag with
    | 1 => .unknownMessage
    | 2 => .noSuchActor
    | 3 => .notAccepted
    | 4 => .closed
    | 5 => .overloaded
    | 6 => .noReply
    | 7 => .decode (fromUtf8Lossy bytes)
    | 8 => .encode (fromUtf8Lossy bytes)
    | 9 => .tooLarge
    -- an error that a later version knows
    | _ => .unknown)

namespace Frame

def encode : Frame → Bytes
  | message callId target msg requests payload =>
    kindMessage :: (match callId with
      | some callId => callTag :: putU64 callId
      | none => [castTag]) ++ putTarget target msg requests ++ payload
  | reply callId result =>
    kindReply :: putU64 callId ++ match result with
      | .ok payload => okTag :: payload
      | .error error => errTag :: putError error

def decode (bytes : Bytes) : Option Frame := do
  let (kind, bytes) ← getU8 bytes
  match kind with
  | 1 =>
    let (tag, bytes) ← getU8 bytes
    let (callId, bytes) ← match tag with
      | 0 => some (none, bytes)
      | 1 => (getU64 bytes).map fun (callId, bytes) => (some callId, bytes)
      | _ => none
    let ((target, msg, requests), bytes) ← getTarget bytes
    some (message callId target msg requests bytes)
  | 2 =>
    let (callId, bytes) ← getU64 bytes
    let (tag, bytes) ← getU8 bytes
    let result ← match tag with
      | 0 => some (.ok bytes)
      | 1 => (getError bytes).map .error
      | _ => none
    some (reply callId result)
  | _ => none

/-- The bytes of a frame that is sent: `prepare` and `reply` refuse one that is too large. -/
def sent (f : Frame) : Option Bytes :=
  if maxMessageSize < f.encode.length then none else some f.encode

end Frame

/-! ## What comes out -/

theorem length_putU64 (x : UInt64) : (putU64 x).length = 8 := length_bigEndian _ _

theorem length_requests (requests : List UInt64) :
    (requests.flatMap putU64).length = requests.length * 8 := by
  induction requests with
  | nil => rfl
  | cons x requests ih =>
    rw [List.flatMap_cons, List.length_append, length_putU64, ih, List.length_cons]
    omega

theorem getU64_putU64 (x : UInt64) (rest : Bytes) : getU64 (putU64 x ++ rest) = some (x, rest) := by
  have hlt : x.toNat < 256 ^ 8 := x.toNat_lt
  rw [getU64, putU64, read_bigEndian, Nat.mod_eq_of_lt hlt]
  simp

theorem splitTo_append (l rest : Bytes) : splitTo l.length (l ++ rest) = some (l, rest) := by
  rw [splitTo, if_neg (by simp), List.take_left, List.drop_left]

theorem takeRequests_requests (count : ℕ) (requests : List UInt64) (rest : Bytes)
    (h : count ≤ requests.length) :
    takeRequests count (requests.flatMap putU64 ++ rest) =
      some (requests.take count, (requests.drop count).flatMap putU64 ++ rest) := by
  induction count generalizing requests with
  | zero => rfl
  | succ count ih =>
    cases requests with
    | nil => simp at h
    | cons x requests =>
      have h : count ≤ requests.length := by simpa using h
      rw [List.flatMap_cons, List.append_assoc, takeRequests, getU64_putU64]
      simp only [Option.bind_eq_bind, Option.bind_some, ih requests h, List.take_succ_cons,
        List.drop_succ_cons]

theorem getRequests_requests (count : ℕ) (requests : List UInt64) (rest : Bytes)
    (h : count ≤ requests.length) :
    getRequests count (requests.flatMap putU64 ++ rest) =
      some (requests.take count, (requests.drop count).flatMap putU64 ++ rest) := by
  have hroom : ¬ (requests.flatMap putU64 ++ rest).length < count * 8 := by
    rw [List.length_append, length_requests]
    omega
  rw [getRequests, if_neg hroom, takeRequests_requests _ _ _ h]

/-- A target whose name fits comes out with as many requests as the lower two bytes of their number
say; the others are taken for the payload. -/
theorem getTarget_putTarget {target : Name} (msg : MessageId) (requests : List UInt64)
    (payload : Bytes) (hname : (utf8Bytes target.val).length < 65536) :
    getTarget (putTarget target msg requests ++ payload) =
      some ((target, msg, requests.take (requests.length % 65536)),
        (requests.drop (requests.length % 65536)).flatMap putU64 ++ payload) := by
  have hlen : (utf8Bytes target.val).length % 256 ^ 2 = (utf8Bytes target.val).length :=
    Nat.mod_eq_of_lt hname
  have hcount : requests.length % 256 ^ 2 ≤ requests.length := Nat.mod_le _ _
  have hid : msg.uuid.toNat % 256 ^ 16 = msg.uuid.toNat := Nat.mod_eq_of_lt msg.uuid.isLt
  simp only [getTarget, putTarget, List.append_assoc, getU16, read_bigEndian, hlen, splitTo_append,
    fromUtf8_utf8Bytes, hid, getRequests_requests _ _ _ hcount, Option.bind_eq_bind,
    Option.bind_some, BitVec.ofNat_toNat, BitVec.setWidth_eq]
  rfl

theorem length_takeRequests {count : ℕ} {bytes rest : Bytes} {requests : List UInt64}
    (h : takeRequests count bytes = some (requests, rest)) : requests.length = count := by
  induction count generalizing bytes requests with
  | zero =>
    cases h
    rfl
  | succ count ih =>
    obtain ⟨⟨request, bytes'⟩, -, h⟩ := Option.bind_eq_some_iff.1 h
    obtain ⟨⟨requests', rest'⟩, htake, h⟩ := Option.bind_eq_some_iff.1 h
    cases h
    rw [List.length_cons, ih htake]

theorem fits_of_getTarget {bytes rest : Bytes} {target : Name} {msg : MessageId}
    {requests : List UInt64} (h : getTarget bytes = some ((target, msg, requests), rest)) :
    (utf8Bytes target.val).length < 65536 ∧ requests.length < 65536 := by
  obtain ⟨⟨len, b₁⟩, hlen, h⟩ := Option.bind_eq_some_iff.1 h
  obtain ⟨⟨name, b₂⟩, hsplit, h⟩ := Option.bind_eq_some_iff.1 h
  obtain ⟨text, htext, h⟩ := Option.bind_eq_some_iff.1 h
  obtain ⟨⟨id, b₃⟩, -, h⟩ := Option.bind_eq_some_iff.1 h
  obtain ⟨⟨count, b₄⟩, hcount, h⟩ := Option.bind_eq_some_iff.1 h
  obtain ⟨⟨requests', b₅⟩, hreq, h⟩ := Option.bind_eq_some_iff.1 h
  cases h
  constructor
  · have hname := utf8Bytes_of_fromUtf8 htext
    have hlt : len < 65536 := lt_of_read hlen
    simp only [splitTo] at hsplit
    split_ifs at hsplit
    cases hsplit
    rw [hname, List.length_take]
    omega
  · simp only [getRequests] at hreq
    split_ifs at hreq
    rw [length_takeRequests hreq]
    exact lt_of_read hcount

theorem getError_putError (error : RemoteError) : getError (putError error) = some error := by
  cases error <;> simp [putError, getError, getU8, fromUtf8Lossy_utf8Bytes]

namespace Frame

/-- The length of the name and the number of requests fit into two bytes each. -/
def Fits : Frame → Prop
  | message _ target _ requests _ =>
    (utf8Bytes target.val).length < 65536 ∧ requests.length < 65536
  | reply _ _ => True

theorem decode_message {callId : Option UInt64} {target : Name} {msg : MessageId}
    {requests : List UInt64} {payload : Bytes} (hname : (utf8Bytes target.val).length < 65536) :
    decode (encode (message callId target msg requests payload)) =
      some (message callId target msg (requests.take (requests.length % 65536))
        ((requests.drop (requests.length % 65536)).flatMap putU64 ++ payload)) := by
  have htarget := getTarget_putTarget msg requests payload hname
  cases callId with
  | none =>
    simp only [encode, decode, kindMessage, castTag, getU8, List.cons_append, List.nil_append,
      Option.bind_eq_bind, Option.bind_some, htarget]
  | some callId =>
    simp only [encode, decode, kindMessage, callTag, getU8, List.cons_append, List.append_assoc,
      Option.bind_eq_bind, Option.bind_some, getU64_putU64, Option.map_some, htarget]

theorem decode_reply (callId : UInt64) (result : Except RemoteError Bytes) :
    decode (encode (reply callId result)) = some (reply callId result) := by
  cases result with
  | ok payload =>
    simp only [encode, decode, kindReply, okTag, getU8, List.cons_append, Option.bind_eq_bind,
      Option.bind_some, getU64_putU64]
  | error error =>
    simp only [encode, decode, kindReply, errTag, getU8, List.cons_append, Option.bind_eq_bind,
      Option.bind_some, getU64_putU64, getError_putError, Option.map_some]

theorem decode_encode {f : Frame} (h : f.Fits) : decode (encode f) = some f := by
  cases f with
  | message callId target msg requests payload =>
    rw [decode_message h.1, Nat.mod_eq_of_lt h.2]
    simp
  | reply callId result => exact decode_reply callId result

theorem fits_of_decode {bytes : Bytes} {f : Frame} (h : decode bytes = some f) : f.Fits := by
  cases f with
  | reply callId result => trivial
  | message callId target msg requests payload =>
    obtain ⟨⟨kind, b₁⟩, -, h⟩ := Option.bind_eq_some_iff.1 h
    dsimp only at h
    split at h
    · obtain ⟨⟨tag, b₂⟩, -, h⟩ := Option.bind_eq_some_iff.1 h
      dsimp only at h
      split at h <;>
      · obtain ⟨⟨callId', b₃⟩, -, h⟩ := Option.bind_eq_some_iff.1 h
        obtain ⟨⟨⟨target', msg', requests'⟩, b₄⟩, htarget, h⟩ := Option.bind_eq_some_iff.1 h
        cases h
        exact fits_of_getTarget htarget
    · -- a reply
      obtain ⟨⟨callId', b₂⟩, -, h⟩ := Option.bind_eq_some_iff.1 h
      obtain ⟨⟨tag, b₃⟩, -, h⟩ := Option.bind_eq_some_iff.1 h
      dsimp only at h
      split at h <;>
      · obtain ⟨result, -, h⟩ := Option.bind_eq_some_iff.1 h
        cases h
    · cases h

/-- A frame that is sent comes out as it went in, if and only if its name and its requests fit. One
that is too large is not sent at all. -/
theorem comesOut_iff (f : Frame) :
    (∀ bytes, f.sent = some bytes → decode bytes = some f) ↔
      f.Fits ∨ maxMessageSize < f.encode.length := by
  constructor
  · intro h
    by_cases hsize : maxMessageSize < f.encode.length
    · exact .inr hsize
    · have hsent : f.sent = some f.encode := if_neg hsize
      exact .inl (fits_of_decode (h _ hsent))
  · intro h bytes hsent
    unfold sent at hsent
    split_ifs at hsent with hsize
    cases hsent
    cases h with
    | inl hfits => exact decode_encode hfits
    | inr hlarge => exact absurd hlarge hsize

theorem length_encode_message (callId : UInt64) (target : Name) (msg : MessageId)
    (requests : List UInt64) (payload : Bytes) :
    (encode (message (some callId) target msg requests payload)).length =
      30 + (utf8Bytes target.val).length + requests.length * 8 + payload.length := by
  simp only [encode, putTarget, List.length_append, List.length_cons, length_bigEndian,
    length_putU64, length_requests]
  omega

/-- A call with `65536` requests is sent, and comes out as one with no requests at all: their ids are
taken for the message. -/
theorem not_comesOut : ¬ ∀ f : Frame, f.sent = none ∨ decode f.encode = some f := by
  intro hall
  let requests : List UInt64 := List.replicate 65536 0
  let f : Frame := message (some 1) ⟨"a"⟩ ⟨0⟩ requests []
  have hname : (utf8Bytes "a").length = 1 := by decide
  have hcount : requests.length = 65536 := List.length_replicate
  have hsize : ¬ maxMessageSize < f.encode.length := by
    rw [length_encode_message, hname, hcount]
    decide
  cases hall f with
  | inl hrefused => simp [sent, hsize] at hrefused
  | inr hdecode =>
    have hfits : f.Fits := fits_of_decode hdecode
    have hlt : requests.length < 65536 := hfits.2
    omega

end Frame

end Messaging

end Zestors
