import Zestors.Link.HandOver
import Zestors.Messaging.Frame

/-!
# What the protocols get

Two protocols share the link, each with a layout of its own. The frames of the actors come out of every
stream as they were put into it (`frames_of_reachable`), and whatever the peers send, nobody speaks for
another to the membership protocol (`authentic_of_reachable`).
-/

namespace Zestors

namespace Protocol

def membership : UInt8 := 0

def actors : UInt8 := 1

end Protocol

/-! ## Messages about membership -/

/-- The bytes of the gossip are opaque. -/
inductive MembershipMessage
  | gossip (data : Bytes)
  | departure
deriving DecidableEq

namespace MembershipMessage

def kindGossip : UInt8 := 1
def kindDeparture : UInt8 := 2

def delivery : MembershipMessage → Delivery
  | gossip _ => .datagram
  | departure => .ordered

def encode : MembershipMessage → Bytes
  | gossip data => kindGossip :: data
  | departure => [kindDeparture]

def decode : Bytes → Option MembershipMessage
  | [] => none
  | kind :: bytes =>
    if kind = kindGossip then some (gossip bytes)
    else if kind = kindDeparture then some departure
    else none

theorem decode_encode (message : MembershipMessage) : decode message.encode = some message := by
  cases message <;> rfl

end MembershipMessage

/-- What `Driver::on_incoming` does with a message. -/
inductive Incoming.Effect
  | handleData (data : Bytes)
  | memberLeft (node : NodeName) (generation : ℕ)
deriving DecidableEq

/-- `Driver::on_incoming`. `senderOf` has the node that a packet says it is from. -/
def Incoming.effect (senderOf : Bytes → Option NodeName) (message : Incoming) : Option Incoming.Effect :=
  match MembershipMessage.decode message.payload with
  | none => none
  | some (.gossip data) => if senderOf data = some message.node then some (.handleData data) else none
  | some .departure => some (.memberLeft message.node message.generation)

namespace LinkTraffic
variable {s s' : LinkTraffic} {e : Event} {pipe pipe' : WirePipe} {lane : LaneWriter} {inbox : Subscription}
  {i j k l c n : ℕ} {protocol : UInt8} {p : LaneSource → Bytes → Prop} {source : LaneSource} {payload : Bytes}

/-! ## What was sent -/

/-- The message was begun on a stream, or went as a datagram. -/
def Sent (s : LinkTraffic) (source : LaneSource) (payload : Bytes) : Prop :=
  (∃ pipe ∈ s.pipes, pipe.source = source ∧ payload ∈ pipe.sent) ∨
    ∃ d ∈ s.datagrams, d.source = source ∧ d.payload = payload

/-- The lanes of the protocol take only messages with `p`. -/
def Only (protocol : UInt8) (p : LaneSource → Bytes → Prop) (s : LinkTraffic) : Event → Prop
  | .send l payload _ _ _ => ∀ lane ∈ s.lanes[l]?, lane.source.protocol = protocol → p lane.source payload
  | _ => True

instance [∀ source payload, Decidable (p source payload)] (s : LinkTraffic) (e : Event) :
    Decidable (Only protocol p s e) := by
  cases e <;> unfold Only <;> infer_instance

/-- Nothing is sent. -/
def Keeps (s s' : LinkTraffic) : Prop := ∀ source payload, s'.Sent source payload → s.Sent source payload

theorem keeps_of_eq (hpipes : s'.pipes = s.pipes) (hdatagrams : s'.datagrams = s.datagrams) : s.Keeps s' := by
  intro source payload hsent
  rwa [Sent, hpipes, hdatagrams] at hsent

theorem keeps_of_set (hi : s.pipes[i]? = some pipe) (hpipes : s'.pipes = s.pipes.set i pipe')
    (hdatagrams : s'.datagrams = s.datagrams) (hsource : pipe'.source = pipe.source)
    (hsent : pipe'.sent = pipe.sent) : s.Keeps s' := by
  intro source payload h
  rw [Sent, hpipes, hdatagrams] at h
  refine h.imp_left fun ⟨pipe₀, hmem, hrest⟩ => ?_
  rcases List.mem_or_eq_of_mem_set hmem with hmem | rfl
  · exact ⟨pipe₀, hmem, hrest⟩
  · rw [hsource, hsent] at hrest
    exact ⟨pipe, List.mem_of_getElem? hi, hrest⟩

theorem keeps_dropStream (s : LinkTraffic) (l : ℕ) (lane : LaneWriter) : s.Keeps (s.dropStream l lane) := by
  unfold dropStream
  split
  · exact keeps_of_eq rfl rfl
  · rename_i i pipe hstream
    exact keeps_of_set (streamOf_eq_some hstream).2 rfl rfl rfl rfl

theorem keeps_read (hs : s.read i = some s') : s.Keeps s' := by
  obtain ⟨pipe, hi, hs⟩ := Option.bind_eq_some_iff.1 hs
  cases hstage : pipe.reader with
  | protocol =>
    rw [hstage] at hs
    dsimp only at hs
    split at hs
    · obtain ⟨-, hs⟩ := Option.ite_none_right_eq_some.1 hs
      cases hs
      exact keeps_of_set hi rfl rfl rfl rfl
    · cases hs
      exact keeps_of_set hi rfl rfl rfl rfl
  | frame protocol =>
    rw [hstage] at hs
    obtain ⟨pipe', hread, rfl⟩ := Option.map_eq_some_iff.1 hs
    unfold readFrame at hread
    split at hread
    · cases hread
      refine keeps_of_set hi rfl rfl ?_ ?_
      · unfold deliver
        split <;> rfl
      · unfold deliver
        split <;> rfl
    · obtain ⟨-, hread⟩ := Option.ite_none_right_eq_some.1 hread
      cases hread
      exact keeps_of_set hi rfl rfl rfl rfl
    · obtain ⟨-, hread⟩ := Option.ite_none_right_eq_some.1 hread
      cases hread
      exact keeps_of_set hi rfl rfl rfl rfl
    · cases hread
      exact keeps_of_set hi rfl rfl rfl rfl
  | delivering protocol j payload =>
    rw [hstage] at hs
    obtain ⟨inbox, hj, hs⟩ := Option.bind_eq_some_iff.1 hs
    obtain ⟨incoming, -, hs⟩ := Option.bind_eq_some_iff.1 hs
    split_ifs at hs <;> cases hs <;> exact keeps_of_set hi rfl rfl rfl rfl
  | done result => rw [hstage] at hs; cases hs
  | failed => rw [hstage] at hs; cases hs

theorem keeps_recvDatagram (hs : s.recvDatagram k = some s') : s.Keeps s' := by
  obtain ⟨-, hs⟩ := Option.ite_none_right_eq_some.1 hs
  obtain ⟨d, -, hs⟩ := Option.bind_eq_some_iff.1 hs
  obtain ⟨-, hs⟩ := Option.ite_none_left_eq_some.1 hs
  split at hs
  · cases hs
    exact keeps_of_eq rfl rfl
  · split at hs
    · cases hs
      exact keeps_of_eq rfl rfl
    · obtain ⟨inbox, -, hs⟩ := Option.bind_eq_some_iff.1 hs
      obtain ⟨incoming, -, hs⟩ := Option.bind_eq_some_iff.1 hs
      split_ifs at hs <;> cases hs <;> exact keeps_of_eq rfl rfl

/-- One message is sent, or none. -/
def Adds (s s' : LinkTraffic) (source : LaneSource) (payload : Bytes) : Prop :=
  ∀ source' payload', s'.Sent source' payload' →
    s.Sent source' payload' ∨ source' = source ∧ payload' = payload

theorem Keeps.adds (h : s.Keeps s') (source : LaneSource) (payload : Bytes) : s.Adds s' source payload :=
  fun source' payload' hsent => .inl (h source' payload' hsent)

theorem adds_openStream (s : LinkTraffic) (l : ℕ) (lane : LaneWriter) (payload : Bytes) (c : ℕ) :
    s.Adds (s.openStream l lane payload c) lane.source payload := by
  intro source' payload' hsent
  rcases hsent with ⟨pipe, hmem, hsource, hsent⟩ | hsent
  · rcases List.mem_append.1 hmem with hmem | hmem
    · exact .inl (.inl ⟨pipe, hmem, hsource, hsent⟩)
    · cases List.mem_singleton.1 hmem
      exact .inr ⟨hsource.symm, List.mem_singleton.1 hsent⟩
  · exact .inl (.inr hsent)

theorem adds_sendDatagram (s : LinkTraffic) (l : ℕ) (lane : LaneWriter) (payload : Bytes) (c : ℕ)
    (sent : Except DatagramError Unit) (opens : Bool) :
    s.Adds (s.sendDatagram l lane payload c sent opens) lane.source payload := by
  have hopen : s.Adds (if opens then s.openStream l lane payload c else s) lane.source payload := by
    split
    · exact adds_openStream s l lane payload c
    · exact (keeps_of_eq rfl rfl).adds _ _
  cases sent with
  | error e => cases e with
    | tooLarge | unsupported => exact hopen
    | closed => exact (keeps_of_eq rfl rfl).adds _ _
  | ok _ =>
    intro source' payload' hsent
    rcases hsent with hsent | ⟨d, hmem, hsource, hpayload⟩
    · exact .inl (.inl hsent)
    · rcases List.mem_append.1 hmem with hmem | hmem
      · exact .inl (.inr ⟨d, hmem, hsource, hpayload⟩)
      · cases List.mem_singleton.1 hmem
        exact .inr ⟨hsource.symm, hpayload.symm⟩

theorem adds_sendOrdered (h : s.Sound) (hl : s.lanes[l]? = some lane) (opens : Bool) :
    s.Adds (s.sendOrdered l lane payload c opens) lane.source payload := by
  unfold sendOrdered
  split
  · rename_i i pipe hstream
    have hsource := (h.streamOf hl hstream).2.1
    have hi := (streamOf_eq_some hstream).2
    split
    · intro source' payload' hsent
      rcases hsent with ⟨pipe₀, hmem, hsource₀, hsent₀⟩ | hsent
      · rcases List.mem_or_eq_of_mem_set hmem with hmem | rfl
        · exact .inl (.inl ⟨pipe₀, hmem, hsource₀, hsent₀⟩)
        · rcases List.mem_append.1 hsent₀ with hsent₀ | hsent₀
          · exact .inl (.inl ⟨pipe, List.mem_of_getElem? hi, hsource₀, hsent₀⟩)
          · exact .inr ⟨hsource₀.symm.trans hsource, List.mem_singleton.1 hsent₀⟩
      · exact .inl (.inr hsent)
    · split
      · intro source' payload' hsent
        refine (adds_openStream _ l lane payload c source' payload' hsent).imp_left ?_
        exact keeps_dropStream s l lane source' payload'
      · exact (keeps_dropStream s l lane).adds _ _
  · split
    · exact adds_openStream s l lane payload c
    · exact (keeps_of_eq rfl rfl).adds _ _

theorem adds_send (h : s.Sound) {sent : Except DatagramError Unit} {opens : Bool}
    (hs : s.send l payload c sent opens = some s') :
    ∃ lane, s.lanes[l]? = some lane ∧ s.Adds s' lane.source payload := by
  obtain ⟨lane, hl, hs⟩ := Option.bind_eq_some_iff.1 hs
  obtain ⟨conn, -, hs⟩ := Option.bind_eq_some_iff.1 hs
  obtain ⟨-, hs⟩ := Option.ite_none_right_eq_some.1 hs
  refine ⟨lane, hl, ?_⟩
  split at hs
  · cases hs
    exact (keeps_of_eq rfl rfl).adds _ _
  · split at hs <;> cases hs
    · exact adds_sendDatagram s l lane payload c sent opens
    · exact adds_sendOrdered h hl opens

theorem keeps_of_step (he : ∀ l payload c sent opens, e ≠ .send l payload c sent opens)
    (hs : s.step e = some s') : s.Keeps s' := by
  cases e with
  | send l payload c sent opens => exact absurd rfl (he l payload c sent opens)
  | connect _ _ | startLane _ _ | subscribe _ => cases hs; exact keeps_of_eq rfl rfl
  | close c =>
    obtain ⟨conn, -, rfl⟩ := Option.map_eq_some_iff.1 hs
    exact keeps_of_eq rfl rfl
  | write l n =>
    obtain ⟨lane, -, hs⟩ := Option.bind_eq_some_iff.1 hs
    obtain ⟨⟨i, pipe⟩, hstream, hs⟩ := Option.bind_eq_some_iff.1 hs
    obtain ⟨-, hs⟩ := Option.ite_none_right_eq_some.1 hs
    dsimp only at hs
    split_ifs at hs <;> cases hs <;> exact keeps_of_set (streamOf_eq_some hstream).2 rfl rfl rfl rfl
  | loseStream l =>
    obtain ⟨lane, -, rfl⟩ := Option.map_eq_some_iff.1 hs
    exact keeps_dropStream s l lane
  | endLane l =>
    obtain ⟨lane, -, hs⟩ := Option.bind_eq_some_iff.1 hs
    obtain ⟨-, hs⟩ := Option.ite_none_right_eq_some.1 hs
    split at hs
    · cases hs
      exact keeps_of_eq rfl rfl
    · rename_i i pipe hstream
      cases hs
      exact keeps_of_set (streamOf_eq_some hstream).2 rfl rfl rfl rfl
  | arrive i n | endArrives i | readFails i =>
    obtain ⟨pipe, hi, hs⟩ := Option.bind_eq_some_iff.1 hs
    obtain ⟨-, hs⟩ := Option.ite_none_right_eq_some.1 hs
    cases hs
    exact keeps_of_set hi rfl rfl rfl rfl
  | read i => exact keeps_read hs
  | recvDatagram k => exact keeps_recvDatagram hs
  | loseDatagram k =>
    obtain ⟨-, hs⟩ := Option.ite_none_right_eq_some.1 hs
    cases hs
    exact keeps_of_eq rfl rfl
  | closeInbox j =>
    obtain ⟨inbox, -, rfl⟩ := Option.map_eq_some_iff.1 hs
    exact keeps_of_eq rfl rfl
  | recv j =>
    obtain ⟨inbox, -, hs⟩ := Option.bind_eq_some_iff.1 hs
    obtain ⟨-, hs⟩ := Option.ite_none_right_eq_some.1 hs
    cases hs
    exact keeps_of_eq rfl rfl

/-- What all lanes of a protocol are given holds of all that was sent for it. -/
theorem sent_of_only (h : (runs.guard (Only protocol p)).Reachable s) (hsent : s.Sent source payload)
    (hprotocol : source.protocol = protocol) : p source payload := by
  suffices hinv : s.Sound ∧ ∀ source payload, s.Sent source payload → source.protocol = protocol →
      p source payload from hinv.2 source payload hsent hprotocol
  clear hsent hprotocol
  refine ⟨sound_of_reachable h.of_guard, ?_⟩
  induction h with
  | init h₀ =>
    cases h₀
    intro source payload hsent
    rcases hsent with ⟨pipe, hmem, -⟩ | ⟨d, hmem, -⟩ <;> cases hmem
  | @step s s' e hreach hs ih =>
    intro source payload hsent hprotocol
    have hsound := sound_of_reachable hreach.of_guard
    cases e with
    | send l payload' c sent opens =>
      obtain ⟨lane, hl, hadds⟩ := adds_send hsound hs.1
      rcases hadds source payload hsent with hsent | ⟨rfl, rfl⟩
      · exact ih source payload hsent hprotocol
      · exact hs.2 lane hl hprotocol
    | _ =>
      have hkeeps := keeps_of_step (fun _ _ _ _ _ he => by cases he) hs.1
      exact ih source payload (hkeeps source payload hsent) hprotocol

/-! ## What was received -/

theorem handedTo_eq (hi : s.pipes[i]? = some pipe) : s.handedTo i j = pipe.handedTo j := by
  rw [handedTo, hi]
  rfl

/-- What a stream hands to one subscriber are messages that were sent on it, in their order. -/
theorem payloads_handedTo (h : s.Sound) (hi : s.pipes[i]? = some pipe) (j : ℕ) :
    ((s.received i j).map Incoming.payload).Sublist pipe.sent := by
  have hprefix := (h.pipes pipe (List.mem_of_getElem? hi)).sound.handed_isPrefix
  refine List.Sublist.trans ?_ hprefix.sublist
  rw [h.log, handedTo_eq hi, WirePipe.handedTo]
  induction pipe.handed with
  | nil => exact .slnil
  | cons a rest ih =>
    rw [List.filterMap_cons]
    split
    · exact ih.cons _
    · rename_i incoming heq
      obtain ⟨-, heq⟩ := Option.ite_none_right_eq_some.1 heq
      cases heq
      exact ih.cons_cons _

theorem sent_of_mem_log (h : s.Sound) (hj : s.inboxes[j]? = some inbox) {a : Arrival} (ha : a ∈ inbox.log) :
    ∃ source payload, s.Sent source payload ∧ source.protocol = inbox.protocol ∧
      a.incoming = source.incoming payload := by
  cases horigin : a.origin with
  | datagram k =>
    obtain ⟨d, hd, hprotocol, hincoming⟩ := h.arrived inbox (List.mem_of_getElem? hj) a ha k horigin
    exact ⟨d.source, d.payload, .inr ⟨d, List.mem_of_getElem? hd, rfl, rfl⟩, hprotocol, hincoming⟩
  | stream i =>
    have hreceived : a.incoming ∈ s.received i j := by
      rw [received, hj]
      exact List.mem_filterMap.2 ⟨a, ha, if_pos horigin⟩
    rw [h.log, handedTo] at hreceived
    cases hi : s.pipes[i]? with
    | none => rw [hi] at hreceived; cases hreceived
    | some pipe =>
      rw [hi] at hreceived
      obtain ⟨⟨payload, how⟩, hmem, heq⟩ := List.mem_filterMap.1 hreceived
      obtain ⟨hhow, heq⟩ := Option.ite_none_right_eq_some.1 heq
      have hground := h.pipes pipe (List.mem_of_getElem? hi)
      obtain ⟨inbox', hj', hprotocol, -⟩ := hground.inbox _ hmem j hhow
      rw [hj] at hj'
      cases hj'
      have hsent : payload ∈ pipe.sent :=
        hground.sound.handed_isPrefix.subset (List.mem_map.2 ⟨_, hmem, rfl⟩)
      exact ⟨pipe.source, payload, .inl ⟨pipe, List.mem_of_getElem? hi, rfl, hsent⟩, hprotocol.symm,
        (Option.some.inj heq).symm⟩

/-! ## The frames of the actors -/

/-- The lanes for actors get frames, which fit. -/
def SendsFrame (_ : LaneSource) (payload : Bytes) : Prop :=
  ∃ frame : Messaging.Frame, frame.Fits ∧ frame.sent = some payload

theorem sendsFrame_iff {payload : Bytes} : SendsFrame source payload ↔
    ∃ frame, Messaging.Frame.decode payload = some frame ∧ frame.sent = some payload := by
  constructor
  · rintro ⟨frame, hfits, hsent⟩
    refine ⟨frame, ?_, hsent⟩
    obtain ⟨-, hpayload⟩ := Option.ite_none_left_eq_some.1 hsent
    cases hpayload
    exact Messaging.Frame.decode_encode hfits
  · rintro ⟨frame, hdecode, hsent⟩
    exact ⟨frame, Messaging.Frame.fits_of_decode hdecode, hsent⟩

instance (source : LaneSource) (payload : Bytes) : Decidable (SendsFrame source payload) :=
  decidable_of_iff ((Messaging.Frame.decode payload).any fun frame => frame.sent = some payload) <| by
    rw [sendsFrame_iff, Option.any_eq_true]
    simp only [decide_eq_true_eq]

theorem exists_frames {payloads : List Bytes} (h : ∀ payload ∈ payloads, SendsFrame source payload) :
    ∃ frames : List Messaging.Frame, payloads = frames.map Messaging.Frame.encode ∧
      payloads.map Messaging.Frame.decode = frames.map some := by
  induction payloads with
  | nil => exact ⟨[], rfl, rfl⟩
  | cons payload payloads ih =>
    obtain ⟨frames, hencode, hdecode⟩ := ih fun payload hmem => h payload (List.mem_cons_of_mem _ hmem)
    obtain ⟨frame, hframe, hsent⟩ := sendsFrame_iff.1 (h payload List.mem_cons_self)
    obtain ⟨-, hpayload⟩ := Option.ite_none_left_eq_some.1 hsent
    refine ⟨frame :: frames, ?_, ?_⟩
    · rw [List.map_cons, ← hencode, Option.some.inj hpayload]
    · rw [List.map_cons, List.map_cons, hframe, hdecode]

structure FramesArrive (s : LinkTraffic) : Prop where
  /-- What a subscriber gets from a stream are frames that were sent on it, in their order. -/
  inOrder : ∀ i pipe, s.pipes[i]? = some pipe → pipe.source.protocol = Protocol.actors →
    ∃ frames : List Messaging.Frame, pipe.sent = frames.map Messaging.Frame.encode ∧
      ∀ j, ∃ got : List Messaging.Frame, got.Sublist frames ∧
        (s.received i j).map (fun message => Messaging.Frame.decode message.payload) = got.map some
  /-- No message is malformed, and each is known by the node that has sent it. -/
  decodes : ∀ inbox ∈ s.inboxes, inbox.protocol = Protocol.actors → ∀ a ∈ inbox.log,
    ∃ source frame, s.Sent source (Messaging.Frame.encode frame) ∧
      a.incoming = source.incoming (Messaging.Frame.encode frame) ∧
      Messaging.Frame.decode a.incoming.payload = some frame

theorem frames_of_reachable (h : (runs.guard (Only Protocol.actors SendsFrame)).Reachable s) :
    s.FramesArrive := by
  have hsound := sound_of_reachable h.of_guard
  refine ⟨fun i pipe hi hactors => ?_, fun inbox hmem hactors a ha => ?_⟩
  · have hframes : ∀ payload ∈ pipe.sent, SendsFrame pipe.source payload := by
      intro payload hmem
      exact sent_of_only h (.inl ⟨pipe, List.mem_of_getElem? hi, rfl, hmem⟩) hactors
    obtain ⟨frames, hencode, hdecode⟩ := exists_frames hframes
    refine ⟨frames, hencode, fun j => ?_⟩
    have hsub := (payloads_handedTo hsound hi j).map Messaging.Frame.decode
    rw [hdecode, List.map_map] at hsub
    obtain ⟨got, hgot, heq⟩ := List.sublist_map_iff.1 hsub
    exact ⟨got, hgot, heq⟩
  · obtain ⟨j, hj⟩ := List.mem_iff_getElem?.1 hmem
    obtain ⟨source, payload, hsent, hprotocol, hincoming⟩ := sent_of_mem_log hsound hj ha
    obtain ⟨frame, hframe, hpayload⟩ := sendsFrame_iff.1 (sent_of_only h hsent (hprotocol.trans hactors))
    obtain ⟨-, hpayload⟩ := Option.ite_none_left_eq_some.1 hpayload
    cases hpayload
    exact ⟨source, frame, hsent, hincoming, by rw [hincoming]; exact hframe⟩

/-- A reply comes in pieces, while another one is under way. -/
theorem frames_of_reachable_replies :
    ∃ s, (runs.guard (Only Protocol.actors SendsFrame)).Reachable s ∧
      ((s.received 0 0).map Incoming.payload = [Messaging.Frame.encode (.reply 7 (.ok [5]))] ∧
        s.pipes.map (fun pipe => pipe.sent.length) = [2]) ∧ s.FramesArrive := by
  obtain ⟨s, hs, hp⟩ : ∃ s, (runs.guard (Only Protocol.actors SendsFrame)).Reachable s ∧ _ :=
    Lts.exists_guard_reachable_of_exec (f := step)
      (p := fun s : LinkTraffic =>
        (s.received 0 0).map Incoming.payload = [Messaging.Frame.encode (.reply 7 (.ok [5]))] ∧
          s.pipes.map (fun pipe => pipe.sent.length) = [2])
      (s := new) rfl
      [.connect "a" 1, .startLane ⟨"a", 1, Protocol.actors⟩ .ordered, .subscribe Protocol.actors,
        .send 0 (Messaging.Frame.encode (.reply 7 (.ok [5]))) 0 (.ok ()) true, .write 0 16,
        .send 0 (Messaging.Frame.encode (.reply 8 (.ok []))) 0 (.ok ()) true, .arrive 0 3, .read 0,
        .arrive 0 13, .read 0, .read 0]
      (by decide +kernel)
  exact ⟨s, hs, hp, frames_of_reachable hs⟩

/-! ## The membership protocol -/

structure Authentic (senderOf : Bytes → Option NodeName) (s : LinkTraffic) : Prop where
  /-- Gossip that is taken was sent by the node that it names. -/
  gossip : ∀ inbox ∈ s.inboxes, inbox.protocol = Protocol.membership → ∀ a ∈ inbox.log, ∀ data,
    a.incoming.effect senderOf = some (.handleData data) →
      ∃ source, source.protocol = Protocol.membership ∧ senderOf data = some source.node ∧
        s.Sent source (MembershipMessage.gossip data).encode
  /-- A node has left if that incarnation of it has said so. -/
  departure : ∀ inbox ∈ s.inboxes, inbox.protocol = Protocol.membership → ∀ a ∈ inbox.log,
    ∀ node generation, a.incoming.effect senderOf = some (.memberLeft node generation) →
      ∃ source payload, source.protocol = Protocol.membership ∧ source.node = node ∧
        source.generation = generation ∧ s.Sent source payload ∧
        MembershipMessage.decode payload = some .departure

theorem eq_encode_of_decode {bytes data : Bytes}
    (h : MembershipMessage.decode bytes = some (.gossip data)) :
    bytes = (MembershipMessage.gossip data).encode := by
  cases bytes with
  | nil => cases h
  | cons kind bytes =>
    simp only [MembershipMessage.decode] at h
    split_ifs at h with hgossip
    · cases h
      rw [hgossip]
      rfl
    · cases h

/-- Whatever the peers send. -/
theorem authentic_of_reachable (senderOf : Bytes → Option NodeName) (h : runs.Reachable s) :
    s.Authentic senderOf := by
  have hsound := sound_of_reachable h
  constructor
  · intro inbox hmem hmembership a ha data heffect
    obtain ⟨j, hj⟩ := List.mem_iff_getElem?.1 hmem
    obtain ⟨source, payload, hsent, hprotocol, hincoming⟩ := sent_of_mem_log hsound hj ha
    rw [hincoming, Incoming.effect] at heffect
    split at heffect
    · cases heffect
    · rename_i data' hdecode
      obtain ⟨hsender, heffect⟩ := Option.ite_none_right_eq_some.1 heffect
      cases heffect
      exact ⟨source, hprotocol.trans hmembership, hsender, eq_encode_of_decode hdecode ▸ hsent⟩
    · cases heffect
  · intro inbox hmem hmembership a ha node generation heffect
    obtain ⟨j, hj⟩ := List.mem_iff_getElem?.1 hmem
    obtain ⟨source, payload, hsent, hprotocol, hincoming⟩ := sent_of_mem_log hsound hj ha
    rw [hincoming, Incoming.effect] at heffect
    split at heffect
    · cases heffect
    · obtain ⟨-, heffect⟩ := Option.ite_none_right_eq_some.1 heffect
      cases heffect
    · rename_i hdecode
      cases heffect
      exact ⟨source, payload, hprotocol.trans hmembership, rfl, rfl, hsent, hdecode⟩

/-- The packets of a node that knows only that of `b`. -/
def sampleSender (data : Bytes) : Option NodeName := if data = [9] then some "b" else none

/-- One node says goodbye; of what the other one sends, only the first is a packet of its own. -/
theorem authentic_of_reachable_goodbye : ∃ s, runs.Reachable s ∧
    s.inboxes.map (fun inbox => inbox.log.map fun a => a.incoming.effect sampleSender) =
      [[some (.handleData [9]), none, some (.memberLeft "a" 1)]] ∧ s.Authentic sampleSender := by
  obtain ⟨s, hs, hp⟩ : ∃ s, runs.Reachable s ∧ _ :=
    Lts.exists_reachable_of_exec (f := step)
      (p := fun s : LinkTraffic =>
        s.inboxes.map (fun inbox => inbox.log.map fun a => a.incoming.effect sampleSender) =
          [[some (.handleData [9]), none, some (.memberLeft "a" 1)]])
      (s := new) rfl
      [.connect "a" 1, .connect "b" 2, .startLane ⟨"a", 1, Protocol.membership⟩ .ordered,
        .startLane ⟨"b", 2, Protocol.membership⟩ .datagram, .subscribe Protocol.membership,
        .send 1 [1, 9] 1 (.ok ()) true, .send 1 [1, 8] 1 (.ok ()) true, .send 0 [2] 0 (.ok ()) true, .write 0 6,
        .arrive 0 6, .read 0, .recvDatagram 0, .recvDatagram 1, .read 0, .read 0]
      (by decide +kernel)
  exact ⟨s, hs, hp, authentic_of_reachable _ hs⟩

end LinkTraffic

end Zestors
