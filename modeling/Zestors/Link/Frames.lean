import Zestors.Lib.BigEndian
import Zestors.Messaging.Pending

/-!
# How things are laid out on streams

A stream carries frames, a length of four bytes and then that many bytes. They arrive in chunks, and
the stream may end anywhere. What is read depends on the bytes alone and not on the chunks
(`readFrame_eq`), and repeated reads give the complete frames and then tell a clean end from a torn
frame (`readFrames_complete`).
-/

namespace Zestors.Wire
open BigEndian

/-- What arrives on a stream, chunk by chunk. A read that gives nothing says that the stream has ended,
so there is something in every chunk. -/
structure ByteStream where
  chunks : List Bytes
  nonempty : [] ∉ chunks

inductive IoError
  | unexpectedEof
  | invalidData (text : String)
deriving DecidableEq

namespace ByteStream

def bytes (s : ByteStream) : Bytes := s.chunks.flatten

/-- `read` into a buffer of `n` bytes. -/
def read (n : ℕ) : ByteStream → Bytes × ByteStream
  | ⟨[], h⟩ => ([], ⟨[], h⟩)
  | ⟨chunk :: chunks, h⟩ =>
    if hn : chunk.length ≤ n then (chunk, ⟨chunks, fun hc => h (List.mem_cons_of_mem _ hc)⟩)
    else
      (chunk.take n, ⟨chunk.drop n :: chunks, by
        intro hc
        rcases List.mem_cons.1 hc with hnil | hc
        · exact hn (List.drop_eq_nil_iff.1 hnil.symm)
        · exact h (List.mem_cons_of_mem _ hc)⟩)

/-- `read_exact` into a buffer of `n` bytes. -/
def readExact (n : ℕ) (s : ByteStream) : Except IoError (Bytes × ByteStream) :=
  if _h : n = 0 then .ok ([], s)
  else if _hr : (s.read n).1 = [] then .error .unexpectedEof
  else (readExact (n - (s.read n).1.length) (s.read n).2).map fun r => ((s.read n).1 ++ r.1, r.2)
termination_by n
decreasing_by
  have hlen := List.length_pos_iff.2 _hr
  omega

theorem length_read_le (n : ℕ) (s : ByteStream) : (s.read n).1.length ≤ n := by
  obtain ⟨_ | ⟨chunk, chunks⟩, h⟩ := s
  · exact Nat.zero_le n
  · simp only [read]
    split_ifs with hn
    · exact hn
    · exact List.length_take_le n chunk

theorem read_append_bytes (n : ℕ) (s : ByteStream) : (s.read n).1 ++ (s.read n).2.bytes = s.bytes := by
  obtain ⟨_ | ⟨chunk, chunks⟩, h⟩ := s
  · rfl
  · simp only [read]
    split_ifs with hn
    · rfl
    · simp only [bytes, List.flatten_cons]
      rw [← List.append_assoc, List.take_append_drop]

theorem read_eq_nil_iff {n : ℕ} (hn : n ≠ 0) (s : ByteStream) : (s.read n).1 = [] ↔ s.bytes = [] := by
  obtain ⟨_ | ⟨chunk, chunks⟩, h⟩ := s
  · exact iff_of_true rfl rfl
  · have hchunk : chunk ≠ [] := fun hnil => h (by simp [hnil])
    simp only [read]
    split_ifs with hle
    · simp [bytes, hchunk]
    · simp [bytes, hchunk, hn]

/-- Neither the chunks nor the reads it takes make a difference to `read_exact`. -/
theorem readExact_eq (n : ℕ) (s : ByteStream) :
    (s.readExact n).map (Prod.map id bytes) =
      if s.bytes.length < n then .error .unexpectedEof else .ok (s.bytes.take n, s.bytes.drop n) := by
  induction n using Nat.strong_induction_on generalizing s with
  | _ n ih =>
    have hle := length_read_le n s
    have hbytes := read_append_bytes n s
    have hnil := read_eq_nil_iff (n := n) (s := s)
    rw [readExact]
    generalize s.read n = r at hle hbytes hnil
    obtain ⟨got, s'⟩ := r
    dsimp only at hle hbytes hnil ⊢
    by_cases hn : n = 0
    · subst hn
      rfl
    rw [dif_neg hn]
    by_cases hgot : got = []
    · rw [dif_pos hgot, (hnil hn).1 hgot, if_pos (List.length_nil.trans_lt (Nat.pos_of_ne_zero hn))]
      rfl
    rw [dif_neg hgot]
    have hpos := List.length_pos_iff.2 hgot
    have hrest := ih (n - got.length) (by omega) s'
    rw [← hbytes, List.length_append, List.take_append, List.drop_append, List.take_of_length_le hle,
      List.drop_of_length_le hle, List.nil_append]
    have hmap : ((readExact (n - got.length) s').map fun r => (got ++ r.1, r.2)).map (Prod.map id bytes) =
        ((readExact (n - got.length) s').map (Prod.map id bytes)).map fun r => (got ++ r.1, r.2) := by
      cases readExact (n - got.length) s' <;> rfl
    rw [hmap, hrest]
    by_cases hlt : s'.bytes.length < n - got.length
    · rw [if_pos hlt, if_pos (by omega)]
      rfl
    · rw [if_neg hlt, if_neg (by omega)]
      rfl

theorem exists_of_map_eq_ok {α : Type} {r : Except IoError (α × ByteStream)} {a : α} {rest : Bytes}
    (h : r.map (Prod.map id bytes) = .ok (a, rest)) : ∃ s', r = .ok (a, s') ∧ s'.bytes = rest := by
  cases r with
  | error e => cases h
  | ok r =>
    obtain ⟨hfst, hsnd⟩ := Prod.mk.inj (Except.ok.inj h)
    exact ⟨r.2, congrArg Except.ok (Prod.ext hfst rfl), hsnd⟩

theorem eq_error_of_map_eq_error {α : Type} {r : Except IoError (α × ByteStream)} {e : IoError}
    (h : r.map (Prod.map id bytes) = .error e) : r = .error e := by
  cases r with
  | error e' => exact congrArg Except.error (Except.error.inj h)
  | ok r => cases h

theorem readExact_of_lt {n : ℕ} {s : ByteStream} (h : s.bytes.length < n) :
    s.readExact n = .error .unexpectedEof :=
  eq_error_of_map_eq_error ((readExact_eq n s).trans (if_pos h))

theorem readExact_of_le {n : ℕ} {s : ByteStream} (h : n ≤ s.bytes.length) :
    ∃ s', s.readExact n = .ok (s.bytes.take n, s') ∧ s'.bytes = s.bytes.drop n :=
  exists_of_map_eq_ok ((readExact_eq n s).trans (if_neg (Nat.not_lt.2 h)))

end ByteStream

/-! ## Frames -/

def writeFrame (payload : Bytes) : Bytes := bigEndian 4 payload.length ++ payload

def overLimit (len max : ℕ) : IoError :=
  .invalidData s!"message of {len} bytes is over the limit of {max}"

/-- The next frame, or `none` if the stream ended cleanly between two frames. -/
def readFrame (max : ℕ) (s : ByteStream) : Except IoError (Option Bytes × ByteStream) :=
  let first := s.read 1
  if first.1 = [] then .ok (none, first.2)
  else do
    let others ← first.2.readExact 3
    let len := fromBigEndian (first.1 ++ others.1)
    if max < len then .error (overLimit len max)
    else do
      let payload ← others.2.readExact len
      .ok (some payload.1, payload.2)

/-- The frame at the front of the bytes, and those behind it. -/
def nextFrame (max : ℕ) (bytes : Bytes) : Except IoError (Option Bytes × Bytes) :=
  if bytes = [] then .ok (none, [])
  else match BigEndian.read 4 bytes with
    | none => .error .unexpectedEof
    | some (len, rest) =>
      if max < len then .error (overLimit len max)
      else if rest.length < len then .error .unexpectedEof
      else .ok (some (rest.take len), rest.drop len)

theorem nextFrame_append (max : ℕ) {len : Bytes} (hlen : len.length = 4) (rest : Bytes) :
    nextFrame max (len ++ rest) =
      if max < fromBigEndian len then .error (overLimit (fromBigEndian len) max)
      else if rest.length < fromBigEndian len then .error .unexpectedEof
      else .ok (some (rest.take (fromBigEndian len)), rest.drop (fromBigEndian len)) := by
  have hne : len ++ rest ≠ [] := by
    intro hnil
    rw [(List.append_eq_nil_iff.1 hnil).1] at hlen
    cases hlen
  rw [nextFrame, if_neg hne, read_append hlen.ge, ← hlen, List.take_length, List.drop_length,
    List.nil_append]

theorem readFrame_eq (max : ℕ) (s : ByteStream) :
    (readFrame max s).map (Prod.map id ByteStream.bytes) = nextFrame max s.bytes := by
  have hle := s.length_read_le 1
  have hbytes := s.read_append_bytes 1
  have hnil := s.read_eq_nil_iff Nat.one_ne_zero
  unfold readFrame nextFrame
  generalize s.read 1 = first at hle hbytes hnil
  obtain ⟨first, s₁⟩ := first
  dsimp only at hle hbytes hnil ⊢
  by_cases hfirst : first = []
  · have hs := hnil.1 hfirst
    rw [if_pos hfirst, if_pos hs]
    subst hfirst
    rw [List.nil_append, hs] at hbytes
    simp [Except.map, hbytes]
  have hone : first.length = 1 := by
    have hpos := List.length_pos_iff.2 hfirst
    omega
  rw [if_neg hfirst, if_neg (fun hs => hfirst (hnil.2 hs)), ← hbytes]
  by_cases hlt : s₁.bytes.length < 3
  · have hshort : (first ++ s₁.bytes).length < 4 := by rw [List.length_append]; omega
    rw [ByteStream.readExact_of_lt hlt, BigEndian.read, if_pos hshort]
    rfl
  have hlong : ¬ (first ++ s₁.bytes).length < 4 := by rw [List.length_append]; omega
  have hlen : (first ++ s₁.bytes).take 4 = first ++ s₁.bytes.take 3 := by
    rw [List.take_append, List.take_of_length_le (by omega), hone]
  have hrest : (first ++ s₁.bytes).drop 4 = s₁.bytes.drop 3 := by
    rw [List.drop_append, List.drop_of_length_le (by omega), hone, List.nil_append]
  obtain ⟨s₂, hr₂, hs₂⟩ := ByteStream.readExact_of_le (Nat.le_of_not_lt hlt)
  rw [hr₂, BigEndian.read, if_neg hlong, hlen, hrest, ← hs₂]
  change Except.map _ (if max < fromBigEndian (first ++ s₁.bytes.take 3) then _ else _) = _
  by_cases hmax : max < fromBigEndian (first ++ s₁.bytes.take 3)
  · rw [if_pos hmax]
    exact (if_pos hmax).symm
  rw [if_neg hmax]
  change _ = if max < fromBigEndian (first ++ s₁.bytes.take 3) then _ else _
  rw [if_neg hmax]
  by_cases htorn : s₂.bytes.length < fromBigEndian (first ++ s₁.bytes.take 3)
  · rw [if_pos htorn, ByteStream.readExact_of_lt htorn]
    rfl
  · obtain ⟨s₃, hr₃, hs₃⟩ := ByteStream.readExact_of_le (Nat.le_of_not_lt htorn)
    rw [if_neg htorn, hr₃, ← hs₃]
    rfl

theorem readFrame_end (max : ℕ) {s : ByteStream} (h : s.bytes = []) :
    ∃ s', readFrame max s = .ok (none, s') ∧ s'.bytes = [] := by
  apply ByteStream.exists_of_map_eq_ok
  rw [readFrame_eq, h]
  rfl

theorem readFrame_overLimit {max : ℕ} {s : ByteStream} {len rest : Bytes} (hlen : len.length = 4)
    (hmax : max < fromBigEndian len) (h : s.bytes = len ++ rest) :
    readFrame max s = .error (overLimit (fromBigEndian len) max) := by
  apply ByteStream.eq_error_of_map_eq_error
  rw [readFrame_eq, h, nextFrame_append max hlen]
  exact if_pos hmax

section
variable {max : ℕ} (hmax : max < 2 ^ 32) {s : ByteStream} {payload : Bytes} (hp : payload.length ≤ max)
include hmax hp

/-- The length of a payload within the limit, as it stands in front of it. -/
theorem fromBigEndian_length : fromBigEndian (bigEndian 4 payload.length) = payload.length := by
  rw [fromBigEndian_bigEndian]
  exact Nat.mod_eq_of_lt (by omega)

theorem nextFrame_writeFrame_append (rest : Bytes) :
    nextFrame max (writeFrame payload ++ rest) = .ok (some payload, rest) := by
  rw [writeFrame, List.append_assoc, nextFrame_append max (length_bigEndian 4 _),
    fromBigEndian_length hmax hp, if_neg (Nat.not_lt.2 hp), if_neg (by simp), List.take_left,
    List.drop_left]

theorem readFrame_frame {rest : Bytes} (h : s.bytes = writeFrame payload ++ rest) :
    ∃ s', readFrame max s = .ok (some payload, s') ∧ s'.bytes = rest := by
  apply ByteStream.exists_of_map_eq_ok
  rw [readFrame_eq, h, nextFrame_writeFrame_append hmax hp]

theorem readFrame_torn (hnil : s.bytes ≠ []) (h : s.bytes <+: writeFrame payload)
    (hne : s.bytes ≠ writeFrame payload) : readFrame max s = .error .unexpectedEof := by
  apply ByteStream.eq_error_of_map_eq_error
  rw [readFrame_eq]
  have hlt : s.bytes.length < (writeFrame payload).length := by
    have hle := h.length_le
    have hlen : s.bytes.length ≠ (writeFrame payload).length := fun hlen => hne (h.eq_of_length hlen)
    omega
  by_cases hshort : s.bytes.length < 4
  · rw [nextFrame, if_neg hnil, BigEndian.read, if_pos hshort]
  · obtain ⟨rest, hrest⟩ : bigEndian 4 payload.length <+: s.bytes := by
      apply List.prefix_of_prefix_length_le (List.prefix_append _ payload) h
      rw [length_bigEndian]
      omega
    rw [← hrest, writeFrame, List.length_append, List.length_append] at hlt
    rw [← hrest, nextFrame_append max (length_bigEndian 4 _), fromBigEndian_length hmax hp,
      if_neg (Nat.not_lt.2 hp), if_pos (by omega)]

end

/-- What is taken for a frame was written as one. -/
theorem eq_of_nextFrame {max : ℕ} {bytes payload rest : Bytes}
    (h : nextFrame max bytes = .ok (some payload, rest)) :
    bytes = writeFrame payload ++ rest ∧ payload.length ≤ max := by
  unfold nextFrame at h
  by_cases hnil : bytes = []
  · rw [if_pos hnil] at h
    cases h
  rw [if_neg hnil] at h
  cases hr : BigEndian.read 4 bytes with
  | none => rw [hr] at h; cases h
  | some r =>
    obtain ⟨len, rest'⟩ := r
    rw [hr] at h
    dsimp only at h
    split_ifs at h with hmax htorn
    cases h
    have hlen : (rest'.take len).length = len := List.length_take_of_le (Nat.le_of_not_lt htorn)
    rw [writeFrame, hlen, List.append_assoc, List.take_append_drop]
    exact ⟨eq_of_read hr, Nat.le_of_not_lt hmax⟩

/-- Reads frames until the stream ends or an error comes up, `fuel` times at most. -/
def readFrames (max : ℕ) : ℕ → ByteStream → List Bytes × Option (Except IoError Unit)
  | 0, _ => ([], none)
  | fuel + 1, s =>
    match readFrame max s with
    | .error e => ([], some (.error e))
    | .ok (none, _) => ([], some (.ok ()))
    | .ok (some payload, s) => ((readFrames max fuel s).map (payload :: ·) id)

/-- What is written for these payloads, one after the other. -/
def writeFrames (payloads : List Bytes) : Bytes := payloads.flatMap writeFrame

@[simp] theorem writeFrames_cons (payload : Bytes) (payloads : List Bytes) :
    writeFrames (payload :: payloads) = writeFrame payload ++ writeFrames payloads := rfl

@[simp] theorem writeFrames_append (payloads payloads' : List Bytes) :
    writeFrames (payloads ++ payloads') = writeFrames payloads ++ writeFrames payloads' :=
  List.flatMap_append

theorem writeFrame_ne_nil (payload : Bytes) : writeFrame payload ≠ [] := by
  intro hnil
  have hlen := congrArg List.length hnil
  rw [writeFrame, List.length_append, length_bigEndian, List.length_nil] at hlen
  omega

/-- Complete frames are read one by one, and then what follows them. -/
theorem readFrames_append {max : ℕ} (hmax : max < 2 ^ 32) {payloads : List Bytes}
    (hp : ∀ payload ∈ payloads, payload.length ≤ max) {s : ByteStream} {rest : Bytes}
    (h : s.bytes = writeFrames payloads ++ rest) (fuel : ℕ) :
    ∃ s', s'.bytes = rest ∧
      readFrames max (payloads.length + fuel) s = (readFrames max fuel s').map (payloads ++ ·) id := by
  induction payloads generalizing s with
  | nil =>
    refine ⟨s, h, ?_⟩
    rw [List.length_nil, Nat.zero_add]
    rfl
  | cons payload payloads ih =>
    rw [writeFrames_cons, List.append_assoc] at h
    obtain ⟨s₁, hr₁, hs₁⟩ := readFrame_frame hmax (hp payload List.mem_cons_self) h
    obtain ⟨s', hs', hread⟩ := ih (fun p hpp => hp p (List.mem_cons_of_mem _ hpp)) hs₁
    refine ⟨s', hs', ?_⟩
    rw [List.length_cons, Nat.add_right_comm, readFrames, hr₁]
    dsimp only
    rw [hread]
    rfl

/-- The payloads whose frames have come in whole with these bytes. -/
structure Complete (payloads : List Bytes) (bytes : Bytes) (complete : List Bytes) : Prop where
  sent : complete <+: payloads
  arrived : writeFrames complete <+: bytes
  longest : ∀ more, more <+: payloads → writeFrames more <+: bytes → more <+: complete

/-- The bytes end between two frames. -/
def AtBoundary (payloads : List Bytes) (bytes : Bytes) : Prop :=
  ∃ done, done <+: payloads ∧ writeFrames done = bytes

/-- The bytes are a beginning of this frame, and neither end of it. -/
structure TornFrame (payload torn : Bytes) : Prop where
  ne_nil : torn ≠ []
  isPrefix : torn <+: writeFrame payload
  ne_frame : torn ≠ writeFrame payload

theorem TornFrame.not_isPrefix {payload torn : Bytes} (h : TornFrame payload torn) :
    ¬ writeFrame payload <+: torn :=
  fun hp => h.ne_frame (h.isPrefix.eq_of_length_le hp.length_le)

/-- Wherever the stream is cut, there are complete frames and what has come of the next one. -/
theorem exists_torn {payloads : List Bytes} {bytes : Bytes} (h : bytes <+: writeFrames payloads) :
    ∃ complete rest torn, payloads = complete ++ rest ∧ bytes = writeFrames complete ++ torn ∧
      (torn = [] ∨ ∃ payload ∈ rest.head?, TornFrame payload torn) := by
  induction payloads generalizing bytes with
  | nil => exact ⟨[], [], [], rfl, List.prefix_nil.1 h, .inl rfl⟩
  | cons payload payloads ih =>
    by_cases hframe : writeFrame payload <+: bytes
    · obtain ⟨bytes', rfl⟩ := hframe
      rw [writeFrames_cons, List.prefix_append_right_inj] at h
      obtain ⟨complete, rest, torn, rfl, rfl, htorn⟩ := ih h
      refine ⟨payload :: complete, rest, torn, rfl, ?_, htorn⟩
      rw [writeFrames_cons, List.append_assoc]
    · refine ⟨[], payload :: payloads, bytes, rfl, rfl, ?_⟩
      by_cases hnil : bytes = []
      · exact .inl hnil
      · have hpre := (List.prefix_or_prefix_of_prefix h (List.prefix_append _ _)).resolve_right hframe
        exact .inr ⟨payload, rfl, hnil, hpre, fun heq => hframe (heq ▸ List.prefix_rfl)⟩

theorem complete_of_torn {complete rest : List Bytes} {torn : Bytes}
    (htorn : torn = [] ∨ ∃ payload ∈ rest.head?, TornFrame payload torn) :
    Complete (complete ++ rest) (writeFrames complete ++ torn) complete := by
  refine ⟨List.prefix_append _ _, List.prefix_append _ _, fun more hmore hbytes => ?_⟩
  rcases List.prefix_or_prefix_of_prefix hmore (List.prefix_append complete rest) with h | ⟨more', rfl⟩
  · exact h
  rw [List.prefix_append_right_inj] at hmore
  rw [writeFrames_append, List.prefix_append_right_inj] at hbytes
  cases more' with
  | nil => exact ⟨[], by simp⟩
  | cons payload' more' =>
    obtain ⟨rest', rfl⟩ := hmore
    have hframe : writeFrame payload' <+: torn := (List.prefix_append _ _).trans hbytes
    rcases htorn with rfl | ⟨payload, hhead, htorn⟩
    · exact absurd (List.prefix_nil.1 hframe) (writeFrame_ne_nil payload')
    · cases hhead
      exact absurd hframe htorn.not_isPrefix

theorem Complete.atBoundary_iff {payloads complete : List Bytes} {torn : Bytes}
    (h : Complete payloads (writeFrames complete ++ torn) complete) :
    AtBoundary payloads (writeFrames complete ++ torn) ↔ torn = [] := by
  constructor
  · rintro ⟨done, hdone, hbytes⟩
    obtain ⟨rest, hrest⟩ := h.longest done hdone (hbytes ▸ List.prefix_rfl)
    have hlen := congrArg List.length hbytes
    rw [← hrest, writeFrames_append, List.length_append, List.length_append] at hlen
    exact List.length_eq_zero_iff.1 (by omega)
  · rintro rfl
    exact ⟨complete, h.sent, (List.append_nil _).symm⟩

/-- Repeated reads give the payloads whose frames are complete, and then the end of the stream if and
only if the stream ends between two frames. A frame over the limit is refused, whatever follows. -/
theorem readFrames_complete {max : ℕ} (hmax : max < 2 ^ 32) {payloads : List Bytes}
    (hp : ∀ payload ∈ payloads, payload.length ≤ max) {fuel : ℕ} (hfuel : payloads.length < fuel)
    (s : ByteStream) :
    (s.bytes <+: writeFrames payloads →
      ∃ complete result, readFrames max fuel s = (complete, some result) ∧
        Complete payloads s.bytes complete ∧ (result = .ok () ↔ AtBoundary payloads s.bytes)) ∧
    (∀ len rest, len.length = 4 → max < fromBigEndian len → s.bytes = writeFrames payloads ++ (len ++ rest) →
      readFrames max fuel s = (payloads, some (.error (overLimit (fromBigEndian len) max)))) := by
  constructor
  · intro hcut
    obtain ⟨complete, rest, torn, rfl, hbytes, htorn⟩ := exists_torn hcut
    have hcomplete : Complete (complete ++ rest) s.bytes complete := hbytes ▸ complete_of_torn htorn
    have hboundary : AtBoundary (complete ++ rest) s.bytes ↔ torn = [] := by
      rw [hbytes] at hcomplete ⊢
      exact hcomplete.atBoundary_iff
    obtain ⟨k, rfl⟩ := Nat.exists_eq_add_of_lt hfuel
    obtain ⟨s', hs', hread⟩ := readFrames_append hmax
      (fun payload h => hp payload (List.mem_append_left rest h)) hbytes (rest.length + k + 1)
    rw [List.length_append, Nat.add_assoc complete.length, Nat.add_assoc complete.length, hread, readFrames,
      hboundary]
    rcases htorn with htorn | ⟨payload, hhead, htorn⟩
    · obtain ⟨s'', hend, -⟩ := readFrame_end max (hs'.trans htorn)
      rw [hend]
      refine ⟨complete, .ok (), ?_, hcomplete, iff_of_true rfl htorn⟩
      simp [Prod.map]
    · have hle := hp payload (List.mem_append_right complete (List.mem_of_mem_head? hhead))
      subst hs'
      rw [readFrame_torn hmax hle htorn.ne_nil htorn.isPrefix htorn.ne_frame]
      refine ⟨complete, .error .unexpectedEof, ?_, hcomplete, iff_of_false (by simp) htorn.ne_nil⟩
      simp [Prod.map]
  · intro len rest hlen hover hbytes
    obtain ⟨k, rfl⟩ := Nat.exists_eq_add_of_lt hfuel
    obtain ⟨s', hs', hread⟩ := readFrames_append hmax hp hbytes (k + 1)
    rw [Nat.add_assoc, hread, readFrames, readFrame_overLimit hlen hover hs']
    simp [Prod.map]

/-- An empty payload and then `[7]`, cut within the length of the second; and an empty payload with a
length of 1025 behind it. -/
theorem readFrames_complete_two :
    (let s : ByteStream := ⟨[[0], [0, 0, 0, 0], [0]], by decide⟩
     ∃ complete result, readFrames 1024 3 s = (complete, some result) ∧
      Complete [[], [7]] s.bytes complete ∧ (result = .ok () ↔ AtBoundary [[], [7]] s.bytes)) ∧
    readFrames 1024 2 ⟨[[0, 0, 0], [0, 0, 0, 4], [1, 9]], by decide⟩ =
      ([[]], some (.error (overLimit 1025 1024))) :=
  ⟨(readFrames_complete (by decide) (by decide) (by decide) _).1 ⟨[0, 1, 7], rfl⟩,
    (readFrames_complete (by decide) (by decide) (by decide) _).2 [0, 0, 4, 1] [9] rfl (by decide) rfl⟩

/-! ## The first message on a connection -/

/-- Which incarnation of the node is on the other end. -/
structure Hello where
  generation : UInt64
deriving DecidableEq

/-- The most a `Hello` can take. -/
def maxHelloSize : ℕ := 1024

def invalidHello : IoError := .invalidData "invalid hello"

def writeHello (hello : Hello) : Bytes := writeFrame (bigEndian 8 hello.generation.toNat)

def readHello (s : ByteStream) : Except IoError (Hello × ByteStream) :=
  match readFrame maxHelloSize s with
  | .error e => .error e
  | .ok (none, _) => .error invalidHello
  | .ok (some payload, s) =>
    if payload.length = 8 then .ok (⟨UInt64.ofNat (fromBigEndian payload)⟩, s) else .error invalidHello

theorem bigEndian_generation {payload : Bytes} (h : payload.length = 8) :
    bigEndian 8 (UInt64.ofNat (fromBigEndian payload)).toNat = payload := by
  have hlt := fromBigEndian_lt payload
  have hback := bigEndian_fromBigEndian payload 0
  rw [h] at hlt hback
  rw [Nat.zero_mul, Nat.zero_add] at hback
  rw [UInt64.toNat_ofNat', Nat.mod_eq_of_lt (by omega), hback]

/-- A hello is read if and only if it was written. -/
theorem readHello_eq_ok_iff {s : ByteStream} {hello : Hello} {rest : Bytes} :
    (∃ s', readHello s = .ok (hello, s') ∧ s'.bytes = rest) ↔ s.bytes = writeHello hello ++ rest := by
  constructor
  · rintro ⟨s', hread, rfl⟩
    have hnext := readFrame_eq maxHelloSize s
    unfold readHello at hread
    cases hr : readFrame maxHelloSize s with
    | error e => rw [hr] at hread; cases hread
    | ok r =>
      obtain ⟨_ | payload, s''⟩ := r
      · rw [hr] at hread
        cases hread
      · rw [hr] at hread hnext
        dsimp only at hread
        split_ifs at hread with hlen
        cases hread
        rw [writeHello, bigEndian_generation hlen]
        exact (eq_of_nextFrame hnext.symm).1
  · intro h
    have hlen : (bigEndian 8 hello.generation.toNat).length ≤ maxHelloSize := by
      rw [length_bigEndian]
      decide
    obtain ⟨s', hread, hs'⟩ := readFrame_frame (by decide) hlen h
    refine ⟨s', ?_, hs'⟩
    have hlt := hello.generation.toNat_lt
    rw [readHello, hread]
    dsimp only
    rw [if_pos (length_bigEndian 8 _), fromBigEndian_bigEndian, Nat.mod_eq_of_lt (by omega), UInt64.ofNat_toNat]

end Zestors.Wire
