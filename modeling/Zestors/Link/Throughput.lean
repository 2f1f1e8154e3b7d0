import Zestors.Link.HandOver

/-!
# What is sent comes through

As long as nothing breaks and nobody stops taking messages, every message that was begun on a stream is
handed over, however the bytes are cut up and whoever else has something under way
(`inevitable_handed`).
-/

namespace Zestors
open Wire BigEndian

/-- What a reader has to do besides its bytes. -/
def ReadStage.left : ReadStage → ℕ
  | .protocol | .frame _ => 1
  | .delivering _ _ _ => 3
  | .done _ | .failed => 0

/-- A byte is written, arrives and is read. -/
def WirePipe.left (pipe : WirePipe) : ℕ :=
  4 * pipe.rest.length + 3 * pipe.inFlight.length + 2 * pipe.unread.length + (if pipe.ended then 0 else 1) +
    pipe.reader.left

namespace LinkTraffic
variable {s s' : LinkTraffic} {e : Event} {pipe pipe' : WirePipe} {inbox inbox' : Subscription}
  {i j k l n : ℕ} {protocol : UInt8} {payload : Bytes}

/-- What goes on by itself, once nobody sends, connects or subscribes, and nothing breaks. -/
def Event.goes : Event → Bool
  | .write _ _ | .arrive _ _ | .endArrives _ | .read _ | .recvDatagram _ | .recv _ => true
  | .connect _ _ | .close _ | .startLane _ _ | .send _ _ _ _ _ | .loseStream _ | .endLane _ | .readFails _
  | .loseDatagram _ | .subscribe _ | .closeInbox _ => false

def restRuns : Lts LinkTraffic Event := (Lts.ofFun (fun _ => True) step).guard fun _ e => e.goes = true

/-- How much there is to do. -/
def left (s : LinkTraffic) : ℕ :=
  (s.pipes.map WirePipe.left).sum + (s.inboxes.map fun inbox => inbox.log.length - inbox.taken).sum +
    2 * s.flying.length

/-- A step of what goes on: the streams stay what they are, and there is less to do. -/
structure Goes (s s' : LinkTraffic) : Prop where
  conns : s'.conns = s.conns
  pipes : ∀ (i : ℕ) (pipe : WirePipe), s.pipes[i]? = some pipe →
    ∃ pipe' : WirePipe, s'.pipes[i]? = some pipe' ∧ pipe'.conn = pipe.conn ∧
      (pipe.writer ≠ .dropped → pipe'.writer ≠ .dropped)
  less : s'.left < s.left

theorem goes_of_pipe (hi : s.pipes[i]? = some pipe) (hpipes : s'.pipes = s.pipes.set i pipe')
    (hconns : s'.conns = s.conns) (hconn : pipe'.conn = pipe.conn)
    (hwriter : pipe.writer ≠ .dropped → pipe'.writer ≠ .dropped) (hless : s'.left < s.left) : s.Goes s' := by
  refine ⟨hconns, fun k pipe₀ hk => ?_, hless⟩
  rw [hpipes, List.getElem?_set_of_getElem? hi]
  split
  · rename_i hik
    subst hik
    rw [hi] at hk
    cases hk
    exact ⟨pipe', rfl, hconn, hwriter⟩
  · exact ⟨pipe₀, hk, rfl, id⟩

theorem goes_of_pipes (hpipes : s'.pipes = s.pipes) (hconns : s'.conns = s.conns) (hless : s'.left < s.left) :
    s.Goes s' :=
  ⟨hconns, fun _ pipe hk => ⟨pipe, hpipes ▸ hk, rfl, id⟩, hless⟩

theorem left_setPipe (hi : s.pipes[i]? = some pipe) (pipe' : WirePipe) :
    (s.setPipe i pipe').left + pipe.left = s.left + pipe'.left := by
  have hsum := List.sum_map_set_add (f := WirePipe.left) (b := pipe') hi
  unfold left setPipe
  dsimp only
  omega

theorem left_setInbox (hj : s.inboxes[j]? = some inbox) (inbox' : Subscription) :
    (s.setInbox j inbox').left + (inbox.log.length - inbox.taken) =
      s.left + (inbox'.log.length - inbox'.taken) := by
  have hsum := List.sum_map_set_add (f := fun inbox : Subscription => inbox.log.length - inbox.taken)
    (b := inbox') hj
  unfold left setInbox
  dsimp only at hsum ⊢
  omega

theorem left_push (hj : s.inboxes[j]? = some inbox) (arrival : Arrival) :
    (s.push j inbox arrival).left ≤ s.left + 1 := by
  have hset := left_setInbox hj { inbox with log := inbox.log ++ [arrival] }
  have hlen : (inbox.log ++ [arrival]).length = inbox.log.length + 1 := List.length_append
  unfold push
  dsimp only at hset
  omega

theorem goes_setPipe (hi : s.pipes[i]? = some pipe) (hconn : pipe'.conn = pipe.conn)
    (hwriter : pipe'.writer = pipe.writer) (hless : pipe'.left < pipe.left) : s.Goes (s.setPipe i pipe') := by
  refine goes_of_pipe hi rfl rfl hconn (fun hne => hwriter ▸ hne) ?_
  have hset := left_setPipe hi pipe'
  omega

theorem length_frame_lt {unread : Bytes}
    (hnext : nextFrame maxMessageSize pipe.unread = .ok (some payload, unread)) :
    unread.length + 4 ≤ pipe.unread.length := by
  have hbytes := congrArg List.length (eq_of_nextFrame hnext).1
  rw [List.length_append, writeFrame, List.length_append, length_bigEndian] at hbytes
  omega

theorem left_deliver (s : LinkTraffic) (pipe : WirePipe) (protocol : UInt8) (payload : Bytes) :
    (s.deliver pipe protocol payload).left ≤ 4 * pipe.rest.length + 3 * pipe.inFlight.length +
      2 * pipe.unread.length + (if pipe.ended then 0 else 1) + 3 := by
  unfold deliver
  cases s.subscribed protocol with
  | none => exact Nat.add_le_add_left (show 1 ≤ 3 by decide) _
  | some j => exact le_rfl

theorem left_readFrame (hstage : pipe.reader = .frame protocol)
    (hs : s.readFrame pipe protocol = some pipe') :
    pipe'.conn = pipe.conn ∧ pipe'.writer = pipe.writer ∧ pipe'.left < pipe.left := by
  have hone : pipe.reader.left = 1 := by rw [hstage]; rfl
  have hdone : ∀ result, ({ pipe with reader := .done result } : WirePipe).left < pipe.left := by
    intro result
    unfold WirePipe.left
    rw [hone]
    exact Nat.lt_succ_self _
  unfold readFrame at hs
  split at hs
  · rename_i payload unread hnext
    cases hs
    have hlen := length_frame_lt hnext
    have hle := left_deliver s { pipe with unread := unread } protocol payload
    refine ⟨?_, ?_, ?_⟩
    · unfold deliver
      cases s.subscribed protocol <;> rfl
    · unfold deliver
      cases s.subscribed protocol <;> rfl
    · unfold WirePipe.left at hle ⊢
      rw [hone]
      dsimp only at hle
      omega
  · obtain ⟨-, hs⟩ := Option.ite_none_right_eq_some.1 hs
    cases hs
    exact ⟨rfl, rfl, hdone _⟩
  · obtain ⟨-, hs⟩ := Option.ite_none_right_eq_some.1 hs
    cases hs
    exact ⟨rfl, rfl, hdone _⟩
  · cases hs
    exact ⟨rfl, rfl, hdone _⟩

theorem goes_read (hs : s.read i = some s') : s.Goes s' := by
  obtain ⟨pipe, hi, hs⟩ := Option.bind_eq_some_iff.1 hs
  cases hstage : pipe.reader with
  | protocol =>
    have hone : pipe.reader.left = 1 := by rw [hstage]; rfl
    rw [hstage] at hs
    cases hunread : pipe.unread with
    | nil =>
      rw [hunread] at hs
      obtain ⟨-, hs⟩ := Option.ite_none_right_eq_some.1 hs
      cases hs
      refine goes_setPipe hi rfl rfl ?_
      unfold WirePipe.left
      rw [hone, hunread]
      exact Nat.lt_succ_self _
    | cons protocol unread =>
      rw [hunread] at hs
      cases hs
      refine goes_setPipe hi rfl rfl ?_
      unfold WirePipe.left
      rw [hone, hunread, List.length_cons]
      dsimp only [ReadStage.left]
      omega
  | frame protocol =>
    rw [hstage] at hs
    obtain ⟨pipe', hread, rfl⟩ := Option.map_eq_some_iff.1 hs
    obtain ⟨hconn, hwriter, hless⟩ := left_readFrame hstage hread
    exact goes_setPipe hi hconn hwriter hless
  | delivering protocol j payload =>
    have hthree : pipe.reader.left = 3 := by rw [hstage]; rfl
    rw [hstage] at hs
    obtain ⟨inbox, hj, hs⟩ := Option.bind_eq_some_iff.1 hs
    obtain ⟨incoming, -, hs⟩ := Option.bind_eq_some_iff.1 hs
    have hless : ∀ handed, ({ pipe with reader := .frame protocol, handed := handed } : WirePipe).left + 2 =
        pipe.left := by
      intro handed
      unfold WirePipe.left
      rw [hthree]
      rfl
    split_ifs at hs
    · cases hs
      refine goes_setPipe hi rfl rfl ?_
      have hsame := hless (pipe.handed ++ [(payload, .closed j)])
      omega
    · cases hs
      refine goes_of_pipe hi rfl rfl rfl id ?_
      have hset := left_setPipe hi { pipe with
        reader := .frame protocol, handed := pipe.handed ++ [(payload, .inbox j)] }
      have hpush := left_push (s := s.setPipe i { pipe with
        reader := .frame protocol, handed := pipe.handed ++ [(payload, .inbox j)] }) hj ⟨.stream i, incoming⟩
      have hsame := hless (pipe.handed ++ [(payload, .inbox j)])
      omega
  | done result => rw [hstage] at hs; cases hs
  | failed => rw [hstage] at hs; cases hs

theorem goes_write (hs : s.write l n = some s') : s.Goes s' := by
  obtain ⟨lane, hl, hs⟩ := Option.bind_eq_some_iff.1 hs
  obtain ⟨⟨i, pipe⟩, hstreamOf, hs⟩ := Option.bind_eq_some_iff.1 hs
  obtain ⟨⟨hpos, hn⟩, hs⟩ := Option.ite_none_right_eq_some.1 hs
  obtain ⟨-, hi⟩ := streamOf_eq_some hstreamOf
  have hless : ∀ writer, ({ pipe with
      rest := pipe.rest.drop n
      inFlight := pipe.inFlight ++ pipe.rest.take n
      writer := writer } : WirePipe).left < pipe.left := by
    intro writer
    unfold WirePipe.left
    dsimp only
    rw [List.length_append, List.length_drop, List.length_take, Nat.min_eq_left hn]
    omega
  dsimp only at hs
  split_ifs at hs
  · cases hs
    refine goes_of_pipe hi rfl rfl rfl (fun _ hdropped => by cases hdropped) ?_
    have hset := left_setPipe hi { pipe with
      rest := pipe.rest.drop n, inFlight := pipe.inFlight ++ pipe.rest.take n, writer := .finished }
    have hfinished := hless .finished
    change left (s.setPipe i _) < _
    omega
  · cases hs
    exact goes_setPipe hi rfl rfl (hless pipe.writer)

theorem goes_recvDatagram (hs : s.recvDatagram k = some s') : s.Goes s' := by
  obtain ⟨hflying, hs⟩ := Option.ite_none_right_eq_some.1 hs
  obtain ⟨d, -, hs⟩ := Option.bind_eq_some_iff.1 hs
  obtain ⟨-, hs⟩ := Option.ite_none_left_eq_some.1 hs
  have hlen := List.length_erase_of_mem hflying
  have hpos := List.length_pos_of_mem hflying
  have hless : left { s with flying := s.flying.erase k } + 2 = s.left := by
    unfold left
    dsimp only
    omega
  have herase : s.Goes { s with flying := s.flying.erase k } := goes_of_pipes rfl rfl (by omega)
  cases hbytes : d.bytes with
  | nil => rw [hbytes] at hs; cases hs; exact herase
  | cons protocol payload =>
    rw [hbytes] at hs
    cases hsub : s.subscribed protocol with
    | none => simp only [hsub] at hs; cases hs; exact herase
    | some j =>
      simp only [hsub] at hs
      obtain ⟨inbox, hj, hs⟩ := Option.bind_eq_some_iff.1 hs
      obtain ⟨incoming, -, hs⟩ := Option.bind_eq_some_iff.1 hs
      split_ifs at hs
      · cases hs
        refine goes_of_pipes rfl rfl ?_
        have hpush := left_push (s := { s with flying := s.flying.erase k }) hj ⟨.datagram k, incoming⟩
        omega
      · cases hs
        exact herase

theorem goes_of_step (he : e.goes = true) (hs : s.step e = some s') : s.Goes s' := by
  cases e with
  | write l n => exact goes_write hs
  | arrive i n =>
    obtain ⟨pipe, hi, hs⟩ := Option.bind_eq_some_iff.1 hs
    obtain ⟨⟨hpos, hn, -⟩, hs⟩ := Option.ite_none_right_eq_some.1 hs
    cases hs
    refine goes_setPipe hi rfl rfl ?_
    unfold WirePipe.left
    dsimp only
    rw [List.length_append, List.length_drop, List.length_take, Nat.min_eq_left hn]
    omega
  | endArrives i =>
    obtain ⟨pipe, hi, hs⟩ := Option.bind_eq_some_iff.1 hs
    obtain ⟨⟨-, -, hended, -⟩, hs⟩ := Option.ite_none_right_eq_some.1 hs
    cases hs
    refine goes_setPipe hi rfl rfl ?_
    unfold WirePipe.left
    rw [hended, if_pos rfl, if_neg Bool.false_ne_true]
    dsimp only
    omega
  | read i => exact goes_read hs
  | recvDatagram k => exact goes_recvDatagram hs
  | recv j =>
    obtain ⟨inbox, hj, hs⟩ := Option.bind_eq_some_iff.1 hs
    obtain ⟨hlt, hs⟩ := Option.ite_none_right_eq_some.1 hs
    cases hs
    refine goes_of_pipes rfl rfl ?_
    have hset := left_setInbox hj { inbox with taken := inbox.taken + 1 }
    dsimp only at hset
    omega
  | connect _ _ | close _ | startLane _ _ | send _ _ _ _ _ | loseStream _ | endLane _ | readFails _
  | loseDatagram _ | subscribe _ | closeInbox _ => cases he

/-! ## Somebody can go on -/

/-- A stream that nobody has dropped, on a connection that is open. -/
def Intact (s : LinkTraffic) (i : ℕ) : Prop :=
  s.Sound ∧ ∃ pipe, s.pipes[i]? = some pipe ∧ pipe.writer ≠ .dropped ∧ s.isClosed pipe.conn = false

/-- Every message begun on the stream has been handed over. -/
def AllHanded (s : LinkTraffic) (i : ℕ) : Prop :=
  ∃ pipe, s.pipes[i]? = some pipe ∧ pipe.handed.map Prod.fst = pipe.sent

theorem Intact.step (h : s.Intact i) (he : e.goes = true) (hs : s.step e = some s') : s'.Intact i := by
  obtain ⟨hsound, pipe, hi, hwriter, hopen⟩ := h
  have hgoes := goes_of_step he hs
  obtain ⟨pipe', hi', hconn, hwriter'⟩ := hgoes.pipes i pipe hi
  refine ⟨hsound.step hs, pipe', hi', hwriter' hwriter, ?_⟩
  rw [isClosed, hgoes.conns, hconn]
  exact hopen

theorem exists_write (h : s.Sound) (hi : s.pipes[i]? = some pipe) (hwriter : pipe.writer ≠ .dropped)
    (hrest : pipe.rest ≠ []) : ∃ e s', e.goes = true ∧ s.step e = some s' := by
  have hsound := (h.pipes pipe (List.mem_of_getElem? hi)).sound
  have hwritable : pipe.writer = .writable := by
    cases hw : pipe.writer with
    | writable => rfl
    | finished => exact absurd (hsound.finished hw) hrest
    | dropped => exact absurd hw hwriter
  obtain ⟨l, lane, hl, hstream⟩ := h.busy i pipe hi hwritable hrest
  have hpos : 0 < 1 ∧ 1 ≤ pipe.rest.length := ⟨Nat.one_pos, List.length_pos_iff.2 hrest⟩
  have hs : (s.write l 1).isSome = true := by
    rw [write, Option.bind_eq_bind, hl, Option.bind_some, streamOf_of_eq hstream hi, Option.bind_eq_bind,
      Option.bind_some]
    dsimp only
    rw [if_pos hpos]
    split <;> rfl
  obtain ⟨s', hs⟩ := Option.isSome_iff_exists.1 hs
  exact ⟨.write l 1, s', rfl, hs⟩

theorem isSome_read {conn : PeerConn} (hi : s.pipes[i]? = some pipe)
    (hstage : pipe.reader = .delivering protocol j payload) (hj : s.inboxes[j]? = some inbox)
    (hc : s.conns[pipe.conn]? = some conn) : (s.read i).isSome = (inbox.isClosed || inbox.hasRoom) := by
  rw [read, Option.bind_eq_bind, hi, Option.bind_some, hstage]
  dsimp only
  rw [Option.bind_eq_bind, hj, Option.bind_some, incoming, hc, Option.map_some, Option.bind_eq_bind,
    Option.bind_some]
  cases inbox.isClosed <;> cases inbox.hasRoom <;> rfl

/-- All bytes have arrived, so the reader can go on, or whoever has not taken the messages before. -/
theorem exists_read (h : s.Sound) (hi : s.pipes[i]? = some pipe) (hwriter : pipe.writer ≠ .dropped)
    (hopen : s.isClosed pipe.conn = false) (hrest : pipe.rest = []) (hinFlight : pipe.inFlight = [])
    (hnot : pipe.handed.map Prod.fst ≠ pipe.sent) : ∃ e s', e.goes = true ∧ s.step e = some s' := by
  have hground := h.pipes pipe (List.mem_of_getElem? hi)
  obtain ⟨remaining, hsent, hreads⟩ := hground.sound.reads
  suffices hstep : (s.read i).isSome = true ∨ ∃ j, (s.step (.recv j)).isSome = true by
    rcases hstep with hs | ⟨j, hs⟩ <;> obtain ⟨s', hs⟩ := Option.isSome_iff_exists.1 hs
    · exact ⟨.read i, s', rfl, hs⟩
    · exact ⟨.recv j, s', rfl, hs⟩
  cases hstage : pipe.reader with
  | protocol =>
    rw [hstage, WirePipe.ReadsAt, hinFlight, hrest, List.append_nil, List.append_nil] at hreads
    refine .inl ?_
    rw [read, Option.bind_eq_bind, hi, Option.bind_some, hstage, hreads.2]
    rfl
  | frame protocol =>
    obtain ⟨-, remaining', hsent', hbytes, hcases⟩ := hground.sound.nextFrame_cases hstage
    rcases hcases with ⟨hnil, -⟩ | ⟨payload, more, unread, -, -, hnext⟩ | ⟨hne, -⟩
    · rw [hnil, hinFlight, hrest, List.append_nil, List.append_nil] at hbytes
      cases remaining' with
      | nil => exact absurd (hsent'.trans (List.append_nil _)).symm hnot
      | cons payload more =>
        rw [writeFrames_cons] at hbytes
        exact absurd (List.append_eq_nil_iff.1 hbytes.symm).1 (writeFrame_ne_nil payload)
    · refine .inl ?_
      rw [read, Option.bind_eq_bind, hi, Option.bind_some, hstage]
      dsimp only
      rw [readFrame, hnext]
      rfl
    · rw [hinFlight, hrest] at hne
      exact absurd rfl hne
  | delivering protocol j payload =>
    obtain ⟨⟨inbox, hj, -⟩, -⟩ := hground.delivering protocol j payload hstage
    obtain ⟨conn, hc, -⟩ := hground.conn
    by_cases hnext : (inbox.isClosed || inbox.hasRoom) = true
    · exact .inl ((isSome_read hi hstage hj hc).trans hnext)
    · refine .inr ⟨j, ?_⟩
      have hlt : inbox.taken < inbox.log.length := by
        by_contra hge
        refine hnext (Bool.or_eq_true_iff.2 (.inr (decide_eq_true ?_)))
        unfold inboxQueue
        omega
      rw [step, Option.bind_eq_bind, hj, Option.bind_some, if_pos hlt]
      rfl
  | done result =>
    rw [hstage] at hreads
    rcases hreads with ⟨-, -, hnil⟩ | ⟨hdropped, -⟩
    · rw [hnil, List.append_nil, WirePipe.taken, hstage, List.append_nil] at hsent
      exact absurd hsent.symm hnot
    · exact absurd hdropped hwriter
  | failed =>
    rcases hground.failed hstage with hdropped | ⟨conn, hc, hclosed⟩
    · exact absurd hdropped hwriter
    · rw [isClosed, hc, Option.all_some, hclosed] at hopen
      cases hopen

theorem Intact.exists_step (h : s.Intact i) (hnot : ¬ s.AllHanded i) :
    ∃ e s', e.goes = true ∧ s.step e = some s' := by
  obtain ⟨hsound, pipe, hi, hwriter, hopen⟩ := h
  by_cases hrest : pipe.rest = []
  swap
  · exact exists_write hsound hi hwriter hrest
  by_cases hinFlight : pipe.inFlight = []
  · exact exists_read hsound hi hwriter hopen hrest hinFlight fun hall => hnot ⟨pipe, hi, hall⟩
  · have hs : (s.step (.arrive i pipe.inFlight.length)).isSome = true := by
      rw [LinkTraffic.step, Option.bind_eq_bind, hi, Option.bind_some,
        if_pos ⟨List.length_pos_iff.2 hinFlight, le_rfl, hopen⟩]
      rfl
    obtain ⟨s', hs⟩ := Option.isSome_iff_exists.1 hs
    exact ⟨.arrive i pipe.inFlight.length, s', rfl, hs⟩

/-- A stream that is not dropped, on a connection that stays open: whatever the order in which bytes are
written, arrive and are read, all that was begun on it comes to be handed over. -/
theorem inevitable_handed (h : runs.Reachable s) (hi : s.pipes[i]? = some pipe)
    (hwriter : pipe.writer ≠ .dropped) (hopen : s.isClosed pipe.conn = false) :
    restRuns.Inevitable (fun s => s.AllHanded i) s := by
  refine Lts.inevitable_of_bound (I := fun s => s.Intact i) left (fun s e s' hI hs => ?_)
    (fun s hI hnot => ?_) ⟨sound_of_reachable h, pipe, hi, hwriter, hopen⟩
  · exact ⟨hI.step hs.2 hs.1, (goes_of_step hs.2 hs.1).less⟩
  · obtain ⟨e, s', he, hs⟩ := hI.exists_step hnot
    exact ⟨e, s', hs, he⟩

/-- Two messages are begun, and the first bytes of them have come. -/
theorem inevitable_handed_begun : ∃ s, runs.Reachable s ∧ ¬ s.AllHanded 0 ∧
    restRuns.Inevitable (fun s => s.AllHanded 0) s := by
  obtain ⟨s, hs, hp⟩ : ∃ s, runs.Reachable s ∧ _ :=
    Lts.exists_reachable_of_exec (f := step)
      (p := fun s : LinkTraffic => s.pipes.map WirePipe.conn = [0] ∧
        s.pipes.map WirePipe.writer = [.writable] ∧ s.isClosed 0 = false ∧
        s.pipes.map WirePipe.sent = [[[7], [8, 9]]] ∧
        s.pipes.map (fun pipe => pipe.handed.length) = [0])
      (s := new) rfl
      [.connect "a" 1, .startLane ⟨"a", 1, 0⟩ .ordered, .subscribe 0, .send 0 [7] 0 (.ok ()) true, .write 0 6,
        .send 0 [8, 9] 0 (.ok ()) true, .write 0 3, .arrive 0 4, .read 0]
      (by decide +kernel)
  obtain ⟨hconn, hwriter, hopen, hsent, hhanded⟩ := hp
  obtain ⟨pipe, hpipes, hconn⟩ := List.map_eq_singleton_iff.1 hconn
  rw [hpipes, List.map_singleton, List.cons.injEq] at hwriter hsent hhanded
  have hi : s.pipes[0]? = some pipe := by rw [hpipes]; rfl
  refine ⟨s, hs, fun hall => ?_, inevitable_handed hs hi (by rw [hwriter.1]; decide) (hconn.symm ▸ hopen)⟩
  obtain ⟨pipe', hi', hall⟩ := hall
  rw [hi] at hi'
  cases hi'
  rw [hsent.1, List.eq_nil_of_length_eq_zero hhanded.1] at hall
  cases hall

end LinkTraffic

end Zestors
