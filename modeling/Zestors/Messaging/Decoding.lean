import Zestors.Messaging.Frame

/-!
# The bytes that decode to a frame

Decoding one read at a time, where a read past the end and an overflow panic. It never does
(`Checked.decode_eq`).

A frame that is a message or a successful reply has no other bytes than its encoding
(`encode_of_decode`), and where the two counts in the head of a message fit, a head that is cut decodes
to nothing; `decoding_is_canonical_iff` says exactly when.
-/

namespace Zestors.Messaging
open BigEndian

/-! ## Bytes that decode -/

theorem eq_of_getU64 {bytes rest : Bytes} {x : UInt64} (h : getU64 bytes = some (x, rest)) :
    bytes = putU64 x ++ rest := by
  obtain ⟨⟨n, rest'⟩, hread, h⟩ := Option.map_eq_some_iff.1 h
  cases h
  have hlt : n < 256 ^ 8 := lt_of_read hread
  rw [putU64, UInt64.toNat_ofNat_of_lt' hlt]
  exact eq_of_read hread

theorem eq_of_splitTo {len : ℕ} {bytes front rest : Bytes} (h : splitTo len bytes = some (front, rest)) :
    bytes = front ++ rest ∧ front.length = len := by
  unfold splitTo at h
  split_ifs at h with hlen
  cases h
  rw [List.take_append_drop, List.length_take, Nat.min_eq_left (Nat.le_of_not_lt hlen)]
  exact ⟨rfl, rfl⟩

theorem eq_of_takeRequests {count : ℕ} {bytes rest : Bytes} {requests : List UInt64}
    (h : takeRequests count bytes = some (requests, rest)) :
    bytes = requests.flatMap putU64 ++ rest := by
  induction count generalizing bytes requests with
  | zero =>
    cases h
    rfl
  | succ count ih =>
    obtain ⟨⟨request, bytes'⟩, hrequest, h⟩ := Option.bind_eq_some_iff.1 h
    obtain ⟨⟨requests', rest'⟩, htake, h⟩ := Option.bind_eq_some_iff.1 h
    cases h
    rw [eq_of_getU64 hrequest, ih htake, List.flatMap_cons, List.append_assoc]

theorem eq_of_getTarget {bytes rest : Bytes} {target : Name} {msg : MessageId}
    {requests : List UInt64} (h : getTarget bytes = some ((target, msg, requests), rest)) :
    bytes = putTarget target msg requests ++ rest := by
  obtain ⟨⟨len, b₁⟩, hlen, h⟩ := Option.bind_eq_some_iff.1 h
  obtain ⟨⟨name, b₂⟩, hsplit, h⟩ := Option.bind_eq_some_iff.1 h
  obtain ⟨text, htext, h⟩ := Option.bind_eq_some_iff.1 h
  obtain ⟨⟨id, b₃⟩, hid, h⟩ := Option.bind_eq_some_iff.1 h
  obtain ⟨⟨count, b₄⟩, hcount, h⟩ := Option.bind_eq_some_iff.1 h
  obtain ⟨⟨requests', b₅⟩, hreq, h⟩ := Option.bind_eq_some_iff.1 h
  cases h
  obtain ⟨hname, hlength⟩ := eq_of_splitTo hsplit
  simp only [getRequests] at hreq
  split_ifs at hreq
  have hb₁ := eq_of_read hlen
  have hb₃ := eq_of_read hid
  have hb₄ := eq_of_read hcount
  have hb₅ := eq_of_takeRequests hreq
  have hid : (BitVec.ofNat 128 id).toNat = id := by
    rw [BitVec.toNat_ofNat]
    exact Nat.mod_eq_of_lt (lt_of_read hid)
  rw [putTarget, utf8Bytes_of_fromUtf8 htext, hlength, hid, length_takeRequests hreq, hb₁, hname, hb₃,
    hb₄, hb₅]
  simp only [List.append_assoc]

namespace Frame

/-- A message or a successful reply. -/
def isIntact : Frame → Bool
  | message _ _ _ _ _ | reply _ (.ok _) => true
  | reply _ (.error _) => false

/-- What decodes to a message or a successful reply is its encoding. -/
theorem encode_of_decode {bytes : Bytes} {f : Frame} (h : decode bytes = some f)
    (hintact : f.isIntact = true) : encode f = bytes := by
  unfold decode at h
  cases bytes with
  | nil => cases h
  | cons kind b₁ =>
    simp only [getU8, Option.bind_eq_bind, Option.bind_some] at h
    split at h
    · cases b₁ with
      | nil => cases h
      | cons tag b₂ =>
        simp only [Option.bind_some] at h
        split at h
        · obtain ⟨⟨⟨target, msg, requests⟩, rest⟩, htarget, h⟩ := Option.bind_eq_some_iff.1 h
          cases h
          rw [eq_of_getTarget htarget]
          rfl
        · obtain ⟨⟨callId, b₃⟩, hcall, h⟩ := Option.bind_eq_some_iff.1 h
          obtain ⟨⟨callId', b₃'⟩, hget, heq⟩ := Option.map_eq_some_iff.1 hcall
          cases heq
          obtain ⟨⟨⟨target, msg, requests⟩, rest⟩, htarget, h⟩ := Option.bind_eq_some_iff.1 h
          cases h
          have hrest : b₃' = _ := eq_of_getTarget htarget
          rw [eq_of_getU64 hget, hrest]
          simp only [encode, kindMessage, callTag, List.cons_append, List.append_assoc]
        · cases h
    · obtain ⟨⟨callId, b₂⟩, hcall, h⟩ := Option.bind_eq_some_iff.1 h
      rw [eq_of_getU64 hcall]
      cases b₂ with
      | nil => cases h
      | cons tag b₃ =>
        simp only [Option.bind_some] at h
        split at h
        · cases h
          rfl
        · obtain ⟨result, herror, h⟩ := Option.bind_eq_some_iff.1 h
          obtain ⟨error, -, heq⟩ := Option.map_eq_some_iff.1 herror
          cases heq
          cases h
          cases hintact
        · cases h
    · cases h

end Frame

/-! ## Reads that may panic -/

/-- What ends a program where a read or a product is not checked before. -/
inductive Panic
  | outOfRange
  | overflow
deriving DecidableEq

/-- A function that returns an `Option`, and may panic. -/
abbrev Reader := OptionT (Except Panic)

namespace Checked

/-- `Buf::get_u8` and its like. -/
def get (width : ℕ) (bytes : Bytes) : Except Panic (ℕ × Bytes) :=
  if bytes.length < width then .error .outOfRange
  else .ok (fromBigEndian (bytes.take width), bytes.drop width)

/-- `Bytes::split_to`. -/
def splitTo (len : ℕ) (bytes : Bytes) : Except Panic (Bytes × Bytes) :=
  if bytes.length < len then .error .outOfRange else .ok (bytes.take len, bytes.drop len)

/-- The product of two numbers of 64 bits. -/
def mul (a b : ℕ) : Except Panic ℕ :=
  if a * b < 18446744073709551616 then .ok (a * b) else .error .overflow

def getU8 (bytes : Bytes) : Reader (UInt8 × Bytes) :=
  if bytes.length = 0 then failure
  else do
    let (n, rest) ← OptionT.lift (get 1 bytes)
    pure (UInt8.ofNat n, rest)

def getU16 (bytes : Bytes) : Reader (ℕ × Bytes) :=
  if bytes.length < 2 then failure else OptionT.lift (get 2 bytes)

def getU64 (bytes : Bytes) : Reader (UInt64 × Bytes) :=
  if bytes.length < 8 then failure
  else do
    let (n, rest) ← OptionT.lift (get 8 bytes)
    pure (UInt64.ofNat n, rest)

/-- As many `get_u64` as there are requests. -/
def takeRequests : ℕ → Bytes → Except Panic (List UInt64 × Bytes)
  | 0, bytes => .ok ([], bytes)
  | count + 1, bytes => do
    let (n, bytes) ← get 8 bytes
    let (requests, bytes) ← takeRequests count bytes
    .ok (UInt64.ofNat n :: requests, bytes)

/-- `get_target`, after the name. -/
def getRequests (name : String) (bytes : Bytes) : Reader ((Name × MessageId × List UInt64) × Bytes) :=
  if bytes.length < 16 then failure
  else do
    let (id, bytes) ← OptionT.lift (get 16 bytes)
    let (count, bytes) ← getU16 bytes
    let size ← OptionT.lift (mul count 8)
    if bytes.length < size then failure
    else do
      let (requests, bytes) ← OptionT.lift (takeRequests count bytes)
      pure ((⟨name⟩, ⟨BitVec.ofNat 128 id⟩, requests), bytes)

/-- `get_target`. -/
def getTarget (bytes : Bytes) : Reader ((Name × MessageId × List UInt64) × Bytes) := do
  let (len, bytes) ← getU16 bytes
  if bytes.length < len then failure
  else do
    let (name, bytes) ← OptionT.lift (splitTo len bytes)
    let name ← OptionT.mk (.ok (fromUtf8 name))
    getRequests name bytes

/-- `get_error`. -/
def getError (bytes : Bytes) : Reader RemoteError := do
  let (tag, bytes) ← getU8 bytes
  pure (match tag with
    | 1 => .unknownMessage
    | 2 => .noSuchActor
    | 3 => .notAccepted
    | 4 => .closed
    | 5 => .overloaded
    | 6 => .noReply
    | 7 => .decode (fromUtf8Lossy bytes)
    | 8 => .encode (fromUtf8Lossy bytes)
    | 9 => .tooLarge
    | _ => .unknown)

/-- `Frame::decode`. -/
def decode (bytes : Bytes) : Reader Frame := do
  let (kind, bytes) ← getU8 bytes
  match kind with
  | 1 =>
    let (tag, bytes) ← getU8 bytes
    let (callId, bytes) ← match tag with
      | 0 => pure (none, bytes)
      | 1 => do
        let (callId, bytes) ← getU64 bytes
        pure (some callId, bytes)
      | _ => failure
    let ((target, msg, requests), bytes) ← getTarget bytes
    pure (.message callId target msg requests bytes)
  | 2 =>
    let (callId, bytes) ← getU64 bytes
    let (tag, bytes) ← getU8 bytes
    let result ← match tag with
      | 0 => pure (.ok bytes)
      | 1 => do
        let error ← getError bytes
        pure (.error error)
      | _ => failure
    pure (.reply callId result)
  | _ => failure

/-- It does not panic. -/
def total {α : Type} (result : Option α) : Reader α := OptionT.mk (.ok result)

theorem bind_total {α β : Type} (result : Option α) {f : α → Reader β} {g : α → Option β}
    (h : ∀ a, result = some a → f a = total (g a)) : total result >>= f = total (result >>= g) := by
  cases result with
  | none => rfl
  | some a => exact h a rfl

theorem get_eq {width : ℕ} {bytes : Bytes} (h : ¬ bytes.length < width) :
    get width bytes = .ok (fromBigEndian (bytes.take width), bytes.drop width) := if_neg h

theorem getU8_eq (bytes : Bytes) : getU8 bytes = total (Messaging.getU8 bytes) := by
  cases bytes with
  | nil => rfl
  | cons b bytes =>
    have hbyte : UInt8.ofNat (fromBigEndian [b]) = b := by
      simp [fromBigEndian]
    have hget : get 1 (b :: bytes) = .ok (fromBigEndian [b], bytes) := get_eq (by simp)
    rw [getU8, if_neg (by simp), hget]
    show total (some (UInt8.ofNat (fromBigEndian [b]), bytes)) = _
    rw [hbyte]
    rfl

theorem getU16_eq (bytes : Bytes) : getU16 bytes = total (Messaging.getU16 bytes) := by
  unfold getU16 Messaging.getU16 BigEndian.read
  split
  · rfl
  · rename_i hlen
    rw [get_eq hlen]
    rfl

theorem getU64_eq (bytes : Bytes) : getU64 bytes = total (Messaging.getU64 bytes) := by
  unfold getU64 Messaging.getU64 BigEndian.read
  split
  · rfl
  · rename_i hlen
    rw [get_eq hlen]
    rfl

theorem takeRequests_eq {count : ℕ} {bytes : Bytes} (h : ¬ bytes.length < count * 8) :
    ∃ result, takeRequests count bytes = .ok result ∧
      Messaging.takeRequests count bytes = some result := by
  induction count generalizing bytes with
  | zero => exact ⟨_, rfl, rfl⟩
  | succ count ih =>
    have hlen : ¬ bytes.length < 8 := by omega
    have hrest : ¬ (bytes.drop 8).length < count * 8 := by
      rw [List.length_drop]
      omega
    obtain ⟨⟨requests, rest⟩, hchecked, htake⟩ := ih hrest
    refine ⟨(UInt64.ofNat (fromBigEndian (bytes.take 8)) :: requests, rest), ?_, ?_⟩
    · rw [takeRequests, get_eq hlen]
      show takeRequests count (bytes.drop 8) >>= _ = _
      rw [hchecked]
      rfl
    · have hget : Messaging.getU64 bytes =
          some (UInt64.ofNat (fromBigEndian (bytes.take 8)), bytes.drop 8) := by
        rw [Messaging.getU64, BigEndian.read, if_neg hlen]
        rfl
      rw [Messaging.takeRequests, hget]
      show Messaging.takeRequests count (bytes.drop 8) >>= _ = _
      rw [htake]
      rfl

theorem mul_eq {count : ℕ} (h : count < 256 ^ 2) : mul count 8 = .ok (count * 8) :=
  if_pos (by omega)

theorem getTarget_eq (bytes : Bytes) : getTarget bytes = total (Messaging.getTarget bytes) := by
  unfold getTarget Messaging.getTarget
  rw [getU16_eq]
  refine bind_total _ fun read _ => ?_
  obtain ⟨len, b₁⟩ := read
  dsimp only
  unfold Messaging.splitTo
  split
  · rfl
  rename_i hname
  have hsplit : splitTo len b₁ = .ok (b₁.take len, b₁.drop len) := if_neg hname
  rw [hsplit]
  refine bind_total (fromUtf8 (b₁.take len)) fun name _ => ?_
  unfold getRequests BigEndian.read
  split
  · rfl
  rename_i hid
  rw [get_eq hid]
  show getU16 ((b₁.drop len).drop 16) >>= _ = _
  rw [getU16_eq]
  refine bind_total _ fun read hcount => ?_
  obtain ⟨count, b₄⟩ := read
  dsimp only
  rw [mul_eq (lt_of_read hcount)]
  show (if b₄.length < count * 8 then _ else _) = _
  unfold Messaging.getRequests
  split
  · rfl
  rename_i hroom
  obtain ⟨result, hchecked, htake⟩ := takeRequests_eq hroom
  rw [hchecked, htake]
  rfl

theorem getError_eq (bytes : Bytes) : getError bytes = total (Messaging.getError bytes) := by
  unfold getError Messaging.getError
  rw [getU8_eq]
  exact bind_total _ fun _ _ => rfl

/-- Whatever comes in, decoding neither reads past the end nor overflows, and it gives what `decode`
gives. -/
theorem decode_eq (bytes : Bytes) : decode bytes = total (Frame.decode bytes) := by
  unfold decode Frame.decode
  rw [getU8_eq]
  refine bind_total _ fun read _ => ?_
  obtain ⟨kind, b₁⟩ := read
  by_cases hmessage : kind = 1
  · subst hmessage
    dsimp only
    rw [getU8_eq]
    refine bind_total _ fun read _ => ?_
    obtain ⟨tag, b₂⟩ := read
    by_cases hcast : tag = 0
    · subst hcast
      show getTarget b₂ >>= _ = _
      rw [getTarget_eq]
      exact bind_total _ fun _ _ => rfl
    by_cases hcall : tag = 1
    · subst hcall
      dsimp only
      rw [getU64_eq]
      cases Messaging.getU64 b₂ with
      | none => rfl
      | some call =>
        show getTarget call.2 >>= _ = _
        rw [getTarget_eq]
        exact bind_total _ fun _ _ => rfl
    · simp only
      rfl
  by_cases hreply : kind = 2
  · subst hreply
    dsimp only
    rw [getU64_eq]
    refine bind_total _ fun read _ => ?_
    obtain ⟨callId, b₂⟩ := read
    dsimp only
    rw [getU8_eq]
    refine bind_total _ fun read _ => ?_
    obtain ⟨tag, b₃⟩ := read
    by_cases hok : tag = 0
    · subst hok
      rfl
    by_cases herr : tag = 1
    · subst herr
      dsimp only
      rw [getError_eq]
      cases Messaging.getError b₃ with
      | none => rfl
      | some error => rfl
    · simp only
      rfl
  · simp only
    rfl

end Checked

/-- The error tags that `get_error` knows. -/
def knownErrors : List UInt8 := [1, 2, 3, 4, 5, 6, 7, 8, 9]

namespace Frame

/-- A reply with an error of a later version still answers its call. -/
theorem decode_unknown {tag : UInt8} (htag : tag ∉ knownErrors) (callId : UInt64) (rest : Bytes) :
    decode (kindReply :: putU64 callId ++ errTag :: tag :: rest) =
      some (reply callId (.error .unknown)) := by
  have herror : getError (tag :: rest) = some .unknown := by
    simp only [knownErrors, List.mem_cons, List.not_mem_nil, or_false, not_or] at htag
    obtain ⟨h₁, h₂, h₃, h₄, h₅, h₆, h₇, h₈, h₉⟩ := htag
    simp only [getError, getU8, Option.bind_eq_bind, Option.bind_some]
  simp only [decode, kindReply, errTag, getU8, List.cons_append, Option.bind_eq_bind,
    Option.bind_some, getU64_putU64, herror, Option.map_some]

/-! ## Heads that are cut -/

/-- What comes before the payload, or before what a reply says beyond its tags. -/
def head : Frame → Bytes
  | message callId target msg requests _ => encode (message callId target msg requests [])
  | reply callId (.ok _) => kindReply :: putU64 callId ++ [okTag]
  | reply callId (.error error) => kindReply :: putU64 callId ++ errTag :: (putError error).take 1

/-- No strict prefix of the head decodes. -/
def CutsToNothing (f : Frame) : Prop := ∀ n < f.head.length, decode (f.encode.take n) = none

/-- The name and the requests of a message fit. Or the name does not, and the rest of it is read as what
follows a name: it is cut inside a character, or asks for so many requests that they reach to the end of
the head or beyond. -/
def HeadHolds : Frame → Prop
  | message _ target _ requests _ =>
    let name := utf8Bytes target.val
    let len := name.length % 65536
    if name.length < 65536 then requests.length < 65536
    else fromUtf8 (name.take len) = none ∨
      name.length + 8 * requests.length ≤ len + 8 * fromBigEndian ((name.drop (len + 16)).take 2)
  | reply _ _ => True

theorem encode_payload {callId : Option UInt64} {target : Name} {msg : MessageId}
    {requests : List UInt64} (payload rest : Bytes) :
    encode (message callId target msg requests (payload ++ rest)) =
      encode (message callId target msg requests payload) ++ rest := by
  cases callId <;> simp only [encode, List.append_assoc, List.cons_append]

theorem encode_eq_head {callId : Option UInt64} {target : Name} {msg : MessageId}
    {requests : List UInt64} (payload : Bytes) :
    encode (message callId target msg requests payload) =
      head (message callId target msg requests payload) ++ payload := encode_payload [] payload

theorem length_head {callId : Option UInt64} {target : Name} {msg : MessageId}
    {requests : List UInt64} {payload : Bytes} :
    (head (message callId target msg requests payload)).length =
      (if callId.isSome then 30 else 22) + (utf8Bytes target.val).length + 8 * requests.length := by
  cases callId with
  | none =>
    simp only [head, encode, putTarget, List.length_append, List.length_cons, List.length_nil,
      length_bigEndian, length_requests, Option.isSome_none, Bool.false_eq_true, if_false]
    omega
  | some callId =>
    simp only [head, encode, putTarget, List.length_append, List.length_cons, List.length_nil,
      length_bigEndian, length_putU64, length_requests, Option.isSome_some, if_true]
    omega

theorem decode_short {bytes : Bytes} (h : bytes.length < 9) : decode (kindReply :: bytes) = none := by
  simp only [decode, kindReply, getU8, Option.bind_eq_bind, Option.bind_some]
  cases hcall : getU64 bytes with
  | none => rfl
  | some call =>
    obtain ⟨callId, rest⟩ := call
    have hlen := congrArg List.length (eq_of_getU64 hcall)
    rw [List.length_append, length_putU64] at hlen
    cases rest with
    | nil => rfl
    | cons b rest =>
      rw [List.length_cons] at hlen
      omega

theorem cutsToNothing_reply (callId : UInt64) (result : Except RemoteError Bytes) :
    CutsToNothing (reply callId result) := by
  intro n hn
  cases n with
  | zero => rfl
  | succ n =>
    by_cases hshort : n < 9
    · refine decode_short ?_
      rw [List.length_take]
      omega
    · cases result with
      | ok payload =>
        simp only [head, List.length_cons, List.length_append, length_putU64, List.length_nil] at hn
        omega
      | error error =>
        have hlen : ((putError error).take 1).length ≤ 1 := by
          rw [List.length_take]
          exact Nat.min_le_left _ _
        simp only [head, List.length_cons, List.length_append, length_putU64] at hn
        obtain rfl : n = 9 := by omega
        have htake : (encode (reply callId (.error error))).take 10 =
            kindReply :: putU64 callId ++ [errTag] := by
          have h9 : 9 = (putU64 callId).length + 1 := by rw [length_putU64]
          simp only [encode, List.cons_append, List.take_succ_cons]
          rw [h9, List.take_length_add_append]
          rfl
        rw [htake]
        simp only [decode, kindReply, errTag, getU8, List.cons_append, Option.bind_eq_bind,
          Option.bind_some, getU64_putU64, getError, Option.bind_none, Option.map_none]

/-- What begins with the kind of a message decodes to a message. -/
theorem isMessage_of_decode {bytes : Bytes} {f : Frame} (h : decode (kindMessage :: bytes) = some f) :
    ∃ callId target msg requests payload, f = message callId target msg requests payload := by
  obtain ⟨⟨tag, b₁⟩, -, h⟩ := Option.bind_eq_some_iff.1 h
  dsimp only at h
  split at h <;>
  · obtain ⟨⟨callId, b₂⟩, -, h⟩ := Option.bind_eq_some_iff.1 h
    obtain ⟨⟨⟨target, msg, requests⟩, rest⟩, -, h⟩ := Option.bind_eq_some_iff.1 h
    cases h
    exact ⟨_, _, _, _, _, rfl⟩

variable {callId : Option UInt64} {target : Name} {msg : MessageId} {requests : List UInt64}
  {payload : Bytes}

/-- A message is cut to nothing unless it comes out with a shorter head. -/
theorem cutsToNothing_message_iff : CutsToNothing (message callId target msg requests payload) ↔
    ∀ f, decode (encode (message callId target msg requests payload)) = some f →
      (head (message callId target msg requests payload)).length ≤ f.head.length := by
  obtain ⟨bytes, hbytes⟩ : ∃ bytes,
      encode (message callId target msg requests payload) = kindMessage :: bytes := ⟨_, rfl⟩
  constructor
  · intro hcuts f hf
    have hcanonical := hf
    rw [hbytes] at hf
    obtain ⟨callId', target', msg', requests', payload', rfl⟩ := isMessage_of_decode hf
    have hencode := encode_of_decode hcanonical rfl
    by_contra hlt
    have hcut := hcuts _ (Nat.lt_of_not_le hlt)
    rw [← hencode, encode_eq_head, List.take_left] at hcut
    have hfits := fits_of_decode hf
    have hdecode := decode_encode (f := message callId' target' msg' requests' []) hfits
    rw [show encode (message callId' target' msg' requests' []) =
      head (message callId' target' msg' requests' payload') from rfl, hcut] at hdecode
    cases hdecode
  · intro hall n hn
    cases hcut : decode ((encode (message callId target msg requests payload)).take n) with
    | none => rfl
    | some f =>
      exfalso
      cases n with
      | zero => cases hcut
      | succ n =>
        have hmessage := hcut
        rw [hbytes, List.take_succ_cons] at hmessage
        obtain ⟨callId', target', msg', requests', payload', rfl⟩ := isMessage_of_decode hmessage
        have hencode := encode_of_decode hcut rfl
        -- with the rest of the bytes it decodes to the same message with more of a payload
        have hfits := fits_of_decode hcut
        have hdecode := decode_encode (f := message callId' target' msg' requests'
          (payload' ++ (encode (message callId target msg requests payload)).drop (n + 1))) hfits
        rw [encode_payload, hencode, List.take_append_drop] at hdecode
        have hle := hall _ hdecode
        have hlength := congrArg List.length hencode
        rw [encode_eq_head, List.length_append, List.length_take] at hlength
        rw [length_head, length_head] at hle
        rw [length_head] at hn hlength
        omega

theorem decode_encode_message : decode (encode (message callId target msg requests payload)) =
    (getTarget (putTarget target msg requests ++ payload)).bind fun ((target, msg, requests), rest) =>
      some (message callId target msg requests rest) := by
  cases callId with
  | none =>
    simp only [encode, decode, kindMessage, castTag, getU8, List.cons_append, List.nil_append,
      Option.bind_eq_bind, Option.bind_some]
  | some callId =>
    simp only [encode, decode, kindMessage, callTag, getU8, List.cons_append, List.append_assoc,
      Option.bind_eq_bind, Option.bind_some, getU64_putU64, Option.map_some]

/-- A name that is too long is read as a name, a message id, a number of requests and those requests. -/
theorem getTarget_of_long (target : Name) (msg : MessageId) (requests : List UInt64) (payload : Bytes)
    {len : ℕ} (hlen : (utf8Bytes target.val).length % 65536 = len)
    (hlong : len + 18 ≤ (utf8Bytes target.val).length) :
    ∃ id rest, rest.length + 18 + len = (utf8Bytes target.val).length + 18 + 8 * requests.length +
        payload.length ∧
      getTarget (putTarget target msg requests ++ payload) =
        (fromUtf8 ((utf8Bytes target.val).take len)).bind fun name =>
          (getRequests (fromBigEndian (((utf8Bytes target.val).drop (len + 16)).take 2)) rest).bind
            fun (requests, rest) => some ((⟨name⟩, id, requests), rest) := by
  refine ⟨⟨BitVec.ofNat 128 (fromBigEndian (((utf8Bytes target.val).drop len).take 16))⟩,
    (utf8Bytes target.val).drop (len + 18) ++ (bigEndian 16 msg.uuid.toNat ++
      (bigEndian 2 requests.length ++ (requests.flatMap putU64 ++ payload))), ?_, ?_⟩
  · simp only [List.length_append, List.length_drop, length_bigEndian, length_requests]
    omega
  · have hname : ∀ rest : Bytes, splitTo len (utf8Bytes target.val ++ rest) =
        some ((utf8Bytes target.val).take len, (utf8Bytes target.val).drop len ++ rest) := by
      intro rest
      have hroom : ¬ (utf8Bytes target.val ++ rest).length < len := by
        rw [List.length_append]
        omega
      rw [splitTo, if_neg hroom, List.take_append_of_le_length (by omega),
        List.drop_append_of_le_length (by omega)]
    have hid : ∀ rest : Bytes, read 16 ((utf8Bytes target.val).drop len ++ rest) =
        some (fromBigEndian (((utf8Bytes target.val).drop len).take 16),
          (utf8Bytes target.val).drop (len + 16) ++ rest) := by
      intro rest
      rw [read_append (by rw [List.length_drop]; omega), List.drop_drop]
    have hcount : ∀ rest : Bytes, read 2 ((utf8Bytes target.val).drop (len + 16) ++ rest) =
        some (fromBigEndian (((utf8Bytes target.val).drop (len + 16)).take 2),
          (utf8Bytes target.val).drop (len + 18) ++ rest) := by
      intro rest
      rw [read_append (by rw [List.length_drop]; omega), List.drop_drop]
    have hmod : (utf8Bytes target.val).length % 256 ^ 2 = len := hlen
    simp only [getTarget, putTarget, List.append_assoc, getU16, read_bigEndian, hmod, hname,
      Option.bind_eq_bind, Option.bind_some, hid, hcount]

theorem cutsToNothing_iff_of_long (hname : ¬ (utf8Bytes target.val).length < 65536) :
    CutsToNothing (message callId target msg requests payload) ↔
      HeadHolds (message callId target msg requests payload) := by
  have hholds : HeadHolds (message callId target msg requests payload) ↔ _ :=
    iff_of_eq (if_neg hname)
  rw [hholds, cutsToNothing_message_iff, decode_encode_message]
  obtain ⟨id, rest, hrest, htarget⟩ := getTarget_of_long target msg requests payload rfl
    (by omega)
  rw [htarget]
  cases htext : fromUtf8 ((utf8Bytes target.val).take ((utf8Bytes target.val).length % 65536)) with
  | none => exact iff_of_true (fun f hf => by cases hf) (.inl rfl)
  | some text =>
    have htextLen : (utf8Bytes text).length = (utf8Bytes target.val).length % 65536 := by
      rw [utf8Bytes_of_fromUtf8 htext, List.length_take]
      exact Nat.min_eq_left (Nat.mod_le _ _)
    generalize fromBigEndian (((utf8Bytes target.val).drop
      ((utf8Bytes target.val).length % 65536 + 16)).take 2) = count
    rw [or_iff_right (Option.some_ne_none _), Option.bind_some]
    by_cases hroom : rest.length < count * 8
    · have hnone : getRequests count rest = none := if_pos hroom
      rw [hnone]
      exact iff_of_true (fun f hf => by cases hf) (by omega)
    · obtain ⟨⟨requests', rest'⟩, -, htake⟩ := Checked.takeRequests_eq hroom
      have hsome : getRequests count rest = some (requests', rest') := (if_neg hroom).trans htake
      have hcount := length_takeRequests htake
      have hshort : (head (message callId ⟨text⟩ id requests' rest')).length =
          (if callId.isSome then 30 else 22) + (utf8Bytes target.val).length % 65536 + 8 * count := by
        rw [length_head, htextLen, hcount]
      rw [hsome]
      constructor
      · intro hall
        have hle := hall _ rfl
        rw [hshort, length_head] at hle
        omega
      · intro hle f hf
        cases hf
        rw [hshort, length_head]
        omega

theorem cutsToNothing_iff (f : Frame) : f.CutsToNothing ↔ f.HeadHolds := by
  cases f with
  | reply callId result => exact iff_of_true (cutsToNothing_reply callId result) trivial
  | message callId target msg requests payload =>
    by_cases hname : (utf8Bytes target.val).length < 65536
    · have hholds : HeadHolds (message callId target msg requests payload) ↔
          requests.length < 65536 := by
        simp only [HeadHolds, hname, if_true]
      rw [hholds, cutsToNothing_message_iff]
      constructor
      · intro hall
        have hle := hall _ (decode_message hname)
        rw [length_head, length_head, List.length_take] at hle
        omega
      · intro hlt f hf
        rw [decode_message hname] at hf
        cases hf
        rw [length_head, length_head, List.length_take]
        omega
    · exact cutsToNothing_iff_of_long hname

/-- Whether decoding some bytes and cutting a frame keep to what is said of them: decoding never panics,
what it takes for a message or a successful reply has those bytes as its encoding, an unknown error is
an error under its call id, and a cut head is nothing. -/
structure Canonical (bytes : Bytes) (f : Frame) : Prop where
  inRange : ∃ result, (Checked.decode bytes).run = .ok result
  reencodes : ∀ f', (Checked.decode bytes).run = .ok (some f') → f'.isIntact = true →
    f'.encode = bytes
  unknownError : ∀ callId tag rest, tag ∉ knownErrors →
    bytes = kindReply :: putU64 callId ++ errTag :: tag :: rest →
      (Checked.decode bytes).run = .ok (some (reply callId (.error .unknown)))
  cut : ∀ n < f.head.length, (Checked.decode (f.encode.take n)).run = .ok none

theorem run_decode (bytes : Bytes) : (Checked.decode bytes).run = .ok (decode bytes) :=
  congrArg OptionT.run (Checked.decode_eq bytes)

theorem Canonical.cutsToNothing {bytes : Bytes} {f : Frame} (h : Canonical bytes f) :
    f.CutsToNothing := fun n hn => Except.ok.inj ((run_decode _).symm.trans (h.cut n hn))

/-- Exactly when decoding is canonical. -/
theorem decoding_is_canonical_iff (bytes : Bytes) (f : Frame) : Canonical bytes f ↔ f.HeadHolds := by
  rw [← cutsToNothing_iff]
  constructor
  · intro h
    exact h.cutsToNothing
  · intro hcuts
    refine ⟨⟨_, run_decode bytes⟩, fun f' hf' hintact => ?_, fun callId tag rest htag hbytes => ?_,
      fun n hn => ?_⟩
    · exact encode_of_decode (Except.ok.inj ((run_decode bytes).symm.trans hf')) hintact
    · rw [run_decode, hbytes, decode_unknown htag]
    · rw [run_decode, hcuts n hn]

/-- The head of a message with `65536` requests has a count of none, so that it decodes before its
requests begin. -/
theorem not_canonical : ¬ ∀ bytes f, Canonical bytes f := by
  intro hall
  let requests : List UInt64 := List.replicate 65536 0
  have hcanonical : Canonical [] (message none ⟨"a"⟩ ⟨0⟩ requests []) := hall _ _
  have hholds := (cutsToNothing_iff _).1 hcanonical.cutsToNothing
  have hname : (utf8Bytes "a").length < 65536 := by decide
  have hlt : requests.length < 65536 := by
    simpa only [HeadHolds, hname, if_true] using hholds
  rw [List.length_replicate] at hlt
  omega

end Frame

end Zestors.Messaging
