import Zestors.Link.Traffic

/-!
# What the subscribers get

Every stream hands over what was sent on it, unchanged and in order, and every subscriber has from a
stream just what that has handed over to it (`delivered_of_reachable`).
-/

namespace Zestors
open Wire

/-- The message as a subscriber gets it. -/
def LaneSource.incoming (source : LaneSource) (payload : Bytes) : Incoming :=
  ⟨source.node, source.generation, payload⟩

/-- What the stream has handed over to the inbox `j`. -/
def WirePipe.handedTo (j : ℕ) (pipe : WirePipe) : List Incoming :=
  pipe.handed.filterMap fun h => if h.2 = .inbox j then some (pipe.source.incoming h.1) else none

/-- What has come from the stream `i`. -/
def Subscription.received (i : ℕ) (inbox : Subscription) : List Incoming :=
  inbox.log.filterMap fun a => if a.origin = .stream i then some a.incoming else none

def Arrival.datagram? (a : Arrival) : Option ℕ :=
  match a.origin with
  | .stream _ => none
  | .datagram k => some k

namespace LinkTraffic
variable {s s' : LinkTraffic} {e : Event} {pipe pipe' : WirePipe} {lane : LaneWriter} {i j k l c n : ℕ}
  {source : LaneSource} {protocol : UInt8} {payload : Bytes}

def handedTo (s : LinkTraffic) (i j : ℕ) : List Incoming := ((s.pipes[i]?).map (WirePipe.handedTo j)).getD []

def received (s : LinkTraffic) (i j : ℕ) : List Incoming :=
  ((s.inboxes[j]?).map (Subscription.received i)).getD []

/-- The datagrams that are under way, and those that are in an inbox. -/
def kept (s : LinkTraffic) : List ℕ :=
  s.flying ++ s.inboxes.flatMap fun inbox => inbox.log.filterMap Arrival.datagram?

/-- The connection leads from the node whose lane it is. -/
def IsFrom (s : LinkTraffic) (c : ℕ) (source : LaneSource) : Prop :=
  ∃ conn, s.conns[c]? = some conn ∧ conn.peer = source.node ∧ conn.generation = source.generation

def HasClosed (s : LinkTraffic) (c : ℕ) : Prop := ∃ conn, s.conns[c]? = some conn ∧ conn.isClosed = true

def HasInbox (s : LinkTraffic) (j : ℕ) (protocol : UInt8) (isClosed : Bool) : Prop :=
  ∃ inbox, s.inboxes[j]? = some inbox ∧ inbox.protocol = protocol ∧ (isClosed = true → inbox.isClosed = true)

/-- A stream, and what it refers to. -/
structure Grounded (s : LinkTraffic) (pipe : WirePipe) : Prop where
  sound : pipe.Sound
  conn : s.IsFrom pipe.conn pipe.source
  inbox : ∀ h ∈ pipe.handed, ∀ j, h.2 = .inbox j → s.HasInbox j pipe.source.protocol false
  closed : ∀ h ∈ pipe.handed, ∀ j, h.2 = .closed j → s.HasInbox j pipe.source.protocol true
  delivering : ∀ protocol j payload, pipe.reader = .delivering protocol j payload →
    s.HasInbox j protocol false ∧ s.subscribed protocol ≠ none
  heard : ∀ h ∈ pipe.handed, h.2 ≠ .nobody → s.subscribed pipe.source.protocol ≠ none
  failed : pipe.reader = .failed → pipe.writer = .dropped ∨ s.HasClosed pipe.conn

structure Sound (s : LinkTraffic) : Prop where
  pipes : ∀ pipe ∈ s.pipes, s.Grounded pipe
  lanes : ∀ (l : ℕ) (lane : LaneWriter) (i : ℕ), s.lanes[l]? = some lane → lane.stream = some i →
    ∃ pipe : WirePipe, s.pipes[i]? = some pipe ∧ pipe.source = lane.source ∧ pipe.writer = .writable
  owner : ∀ (l l' : ℕ) (lane lane' : LaneWriter) (i : ℕ), s.lanes[l]? = some lane →
    s.lanes[l']? = some lane' → lane.stream = some i → lane'.stream = some i → l = l'
  busy : ∀ (i : ℕ) (pipe : WirePipe), s.pipes[i]? = some pipe → pipe.writer = .writable → pipe.rest ≠ [] →
    ∃ (l : ℕ) (lane : LaneWriter), s.lanes[l]? = some lane ∧ lane.stream = some i
  subscribed : ∀ protocol j, s.subscribed protocol = some j → s.HasInbox j protocol false
  log : ∀ i j, s.received i j = s.handedTo i j
  datagrams : ∀ d ∈ s.datagrams, d.bytes = d.source.protocol :: d.payload ∧ s.IsFrom d.conn d.source
  arrived : ∀ inbox ∈ s.inboxes, ∀ a ∈ inbox.log, ∀ k, a.origin = .datagram k →
    ∃ d, s.datagrams[k]? = some d ∧ d.source.protocol = inbox.protocol ∧
      a.incoming = d.source.incoming d.payload
  once : s.kept.Nodup
  known : ∀ k ∈ s.kept, k < s.datagrams.length

/-- Nothing that a stream refers to is gone. -/
structure Extends (s s' : LinkTraffic) : Prop where
  conns : ∀ c source, s.IsFrom c source → s'.IsFrom c source
  closed : ∀ c, s.HasClosed c → s'.HasClosed c
  inboxes : ∀ j protocol isClosed, s.HasInbox j protocol isClosed → s'.HasInbox j protocol isClosed
  subscribed : ∀ protocol, s.subscribed protocol ≠ none → s'.subscribed protocol ≠ none

theorem Grounded.mono (h : s.Grounded pipe) (hext : s.Extends s') : s'.Grounded pipe where
  sound := h.sound
  conn := hext.conns _ _ h.conn
  inbox a ha j hj := hext.inboxes _ _ _ (h.inbox a ha j hj)
  closed a ha j hj := hext.inboxes _ _ _ (h.closed a ha j hj)
  delivering protocol j payload hstage :=
    ⟨hext.inboxes _ _ _ (h.delivering protocol j payload hstage).1,
      hext.subscribed _ (h.delivering protocol j payload hstage).2⟩
  heard a ha hne := hext.subscribed _ (h.heard a ha hne)
  failed hfailed := (h.failed hfailed).imp id (hext.closed _)

theorem Grounded.hasClosed (h : s.Grounded pipe) (hw : pipe.writer = .writable)
    (hfailed : pipe.reader = .failed) :
    s.HasClosed pipe.conn := by
  rcases h.failed hfailed with hdropped | hclosed
  · rw [hw] at hdropped
    cases hdropped
  · exact hclosed

theorem extends_of_eq (hconns : s'.conns = s.conns) (hinboxes : s'.inboxes = s.inboxes)
    (hsubscribed : s'.subscribed = s.subscribed) : s.Extends s' where
  conns c source h := by rwa [IsFrom, hconns]
  closed c h := by rwa [HasClosed, hconns]
  inboxes j protocol isClosed h := by rwa [HasInbox, hinboxes]
  subscribed protocol h := by rwa [hsubscribed]

theorem handedTo_set (hi : s.pipes[i]? = some pipe)
    (hpipes : s'.pipes = s.pipes.set i pipe') (k j : ℕ) :
    s'.handedTo k j = if i = k then pipe'.handedTo j else s.handedTo k j := by
  unfold handedTo
  rw [hpipes, List.getElem?_set_of_getElem? hi]
  split <;> rfl

theorem Sound.setPipe (h : s.Sound) (hi : s.pipes[i]? = some pipe) (hground : s.Grounded pipe')
    (hsource : pipe'.source = pipe.source) (hwriter : pipe'.writer = pipe.writer)
    (hhanded : ∀ j, pipe'.handedTo j = pipe.handedTo j)
    (hbusy : pipe'.rest ≠ [] → pipe.rest ≠ [] ∨ ∃ (l : ℕ) (lane : LaneWriter), s.lanes[l]? = some lane ∧
      lane.stream = some i) : (s.setPipe i pipe').Sound where
  pipes pipe₀ hmem := by
    have hext : s.Extends (s.setPipe i pipe') := extends_of_eq rfl rfl rfl
    rcases List.mem_or_eq_of_mem_set hmem with hmem | rfl
    · exact (h.pipes pipe₀ hmem).mono hext
    · exact hground.mono hext
  lanes l lane k hl hstream := by
    obtain ⟨pipe₀, hk, hsource₀, hwriter₀⟩ := h.lanes l lane k hl hstream
    by_cases hik : i = k
    · subst hik
      rw [hi] at hk
      cases hk
      exact ⟨pipe', by rw [LinkTraffic.setPipe, List.getElem?_set_of_getElem? hi, if_pos rfl],
        hsource.trans hsource₀, hwriter.trans hwriter₀⟩
    · exact ⟨pipe₀, by rw [LinkTraffic.setPipe, List.getElem?_set_of_getElem? hi, if_neg hik, hk], hsource₀,
        hwriter₀⟩
  owner := h.owner
  busy k pipe₀ hk hw hrest := by
    rw [LinkTraffic.setPipe, List.getElem?_set_of_getElem? hi] at hk
    split at hk
    · rename_i hik
      subst hik
      cases hk
      exact (hbusy hrest).elim (h.busy i pipe hi (hwriter ▸ hw)) id
    · exact h.busy k pipe₀ hk hw hrest
  subscribed := h.subscribed
  log k j := by
    rw [handedTo_set hi rfl]
    split
    · rename_i hik
      subst hik
      have hlog : s.received i j = s.handedTo i j := h.log i j
      rw [handedTo, hi] at hlog
      exact hlog.trans (hhanded j).symm
    · exact h.log k j
  datagrams := h.datagrams
  arrived := h.arrived
  once := h.once
  known := h.known

theorem Sound.release (h : s.Sound) (hl : s.lanes[l]? = some lane) (hstream : lane.stream = some i)
    (hi : s.pipes[i]? = some pipe) (hground : s.Grounded pipe') (hhanded : pipe'.handed = pipe.handed)
    (hsource : pipe'.source = pipe.source) (hwriter : pipe'.writer ≠ .writable) :
    (s.release l lane i pipe').Sound where
  pipes pipe₀ hmem := by
    have hext : s.Extends (s.release l lane i pipe') := extends_of_eq rfl rfl rfl
    rcases List.mem_or_eq_of_mem_set hmem with hmem | rfl
    · exact (h.pipes pipe₀ hmem).mono hext
    · exact hground.mono hext
  lanes l' lane' k hl' hstream' := by
    have hl' : (s.lanes.set l { lane with stream := none })[l']? = some lane' := hl'
    rw [List.getElem?_set_of_getElem? hl] at hl'
    split at hl'
    · cases hl'
      cases hstream'
    · rename_i hne
      obtain ⟨pipe₀, hk, hrest⟩ := h.lanes l' lane' k hl' hstream'
      have hik : i ≠ k := fun hik => hne (h.owner l l' lane lane' i hl hl' hstream (hik ▸ hstream'))
      refine ⟨pipe₀, ?_, hrest⟩
      show (s.pipes.set i pipe')[k]? = _
      rw [List.getElem?_set_of_getElem? hi, if_neg hik, hk]
  owner l₁ l₂ lane₁ lane₂ k hl₁ hl₂ hstream₁ hstream₂ := by
    have hl₁ : (s.lanes.set l { lane with stream := none })[l₁]? = some lane₁ := hl₁
    have hl₂ : (s.lanes.set l { lane with stream := none })[l₂]? = some lane₂ := hl₂
    rw [List.getElem?_set_of_getElem? hl] at hl₁ hl₂
    split at hl₁
    · cases hl₁
      cases hstream₁
    · split at hl₂
      · cases hl₂
        cases hstream₂
      · exact h.owner l₁ l₂ lane₁ lane₂ k hl₁ hl₂ hstream₁ hstream₂
  busy k pipe₀ hk hw hrest := by
    have hk : (s.pipes.set i pipe')[k]? = some pipe₀ := hk
    rw [List.getElem?_set_of_getElem? hi] at hk
    split at hk
    · cases hk
      exact absurd hw hwriter
    · rename_i hik
      obtain ⟨l', lane', hl', hstream'⟩ := h.busy k pipe₀ hk hw hrest
      refine ⟨l', lane', ?_, hstream'⟩
      show (s.lanes.set l _)[l']? = _
      rw [List.getElem?_set_of_getElem? hl, if_neg, hl']
      rintro rfl
      rw [hl] at hl'
      cases hl'
      exact hik (Option.some.inj (hstream.symm.trans hstream'))
  subscribed := h.subscribed
  log k j := by
    have hset : (s.release l lane i pipe').handedTo k j = _ := handedTo_set hi rfl k j
    rw [hset]
    split
    · rename_i hik
      subst hik
      have hlog : s.received i j = s.handedTo i j := h.log i j
      rw [handedTo, hi] at hlog
      refine hlog.trans ?_
      simp only [Option.map_some, Option.getD_some, WirePipe.handedTo, hhanded, hsource]
    · exact h.log k j
  datagrams := h.datagrams
  arrived := h.arrived
  once := h.once
  known := h.known

theorem Sound.openStream (h : s.Sound) (hl : s.lanes[l]? = some lane) (hfrom : s.IsFrom c lane.source)
    (hp : payload.length ≤ maxMessageSize)
    (hidle : ∀ i pipe, lane.stream = some i → s.pipes[i]? = some pipe → pipe.rest = []) :
    (s.openStream l lane payload c).Sound where
  pipes pipe₀ hmem := by
    have hext : s.Extends (s.openStream l lane payload c) := extends_of_eq rfl rfl rfl
    rcases List.mem_append.1 hmem with hmem | hmem
    · exact (h.pipes pipe₀ hmem).mono hext
    · cases List.mem_singleton.1 hmem
      refine ⟨⟨⟨[payload], rfl, rfl, ?_⟩, ?_, ?_, ?_, [], [], rfl, ?_, ?_⟩, hfrom, ?_, ?_, ?_, ?_, ?_⟩
      · exact congrArg (lane.source.protocol :: ·) (List.append_nil _).symm
      · intro payload' hmem
        rwa [List.mem_singleton.1 hmem]
      · intro hfinished
        cases hfinished
      · intro hended
        cases hended
      · intro a ha
        cases ha
      · intro a ha
        cases ha
      · intro a ha
        cases ha
      · intro a ha
        cases ha
      · intro protocol j payload hstage
        cases hstage
      · intro a ha
        cases ha
      · intro hfailed
        cases hfailed
  lanes l' lane' k hl' hstream' := by
    have hl' : (s.lanes.set l { lane with stream := some s.pipes.length })[l']? = some lane' := hl'
    rw [List.getElem?_set_of_getElem? hl] at hl'
    split at hl'
    · cases hl'
      cases hstream'
      exact ⟨_, List.getElem?_concat_length, rfl, rfl⟩
    · obtain ⟨pipe₀, hk, hrest⟩ := h.lanes l' lane' k hl' hstream'
      exact ⟨pipe₀, List.getElem?_concat_eq_some.2 (.inl hk), hrest⟩
  owner l₁ l₂ lane₁ lane₂ k hl₁ hl₂ hstream₁ hstream₂ := by
    have hl₁ : (s.lanes.set l { lane with stream := some s.pipes.length })[l₁]? = some lane₁ := hl₁
    have hl₂ : (s.lanes.set l { lane with stream := some s.pipes.length })[l₂]? = some lane₂ := hl₂
    have hfresh : ∀ {l' : ℕ} {lane' : LaneWriter}, s.lanes[l']? = some lane' →
        lane'.stream ≠ some s.pipes.length := by
      intro l' lane' hl' hstream'
      obtain ⟨pipe₀, hk, -⟩ := h.lanes l' lane' _ hl' hstream'
      exact absurd (List.getElem?_eq_some_iff.1 hk).1 (Nat.lt_irrefl _)
    rw [List.getElem?_set_of_getElem? hl] at hl₁ hl₂
    split at hl₁ <;> split at hl₂
    · rename_i h₁ h₂
      exact h₁.symm.trans h₂
    · cases hl₁
      cases hstream₁
      exact absurd hstream₂ (hfresh hl₂)
    · cases hl₂
      cases hstream₂
      exact absurd hstream₁ (hfresh hl₁)
    · exact h.owner l₁ l₂ lane₁ lane₂ k hl₁ hl₂ hstream₁ hstream₂
  busy k pipe₀ hk hw hrest := by
    have hset : ∀ l', (s.openStream l lane payload c).lanes[l']? = _ := fun l' =>
      List.getElem?_set_of_getElem? hl
    rcases List.getElem?_concat_eq_some.1 hk with hk | ⟨rfl, -⟩
    · obtain ⟨l', lane', hl', hstream'⟩ := h.busy k pipe₀ hk hw hrest
      refine ⟨l', lane', ?_, hstream'⟩
      rw [hset, if_neg, hl']
      rintro rfl
      rw [hl] at hl'
      cases hl'
      exact hrest (hidle k pipe₀ hstream' hk)
    · exact ⟨l, _, by rw [hset, if_pos rfl], rfl⟩
  subscribed := h.subscribed
  log k j := by
    have hlog : s.received k j = s.handedTo k j := h.log k j
    refine hlog.trans ?_
    unfold handedTo LinkTraffic.openStream
    dsimp only
    rw [List.getElem?_append]
    split
    · rfl
    · rename_i hlt
      rw [List.getElem?_eq_none (Nat.le_of_not_lt hlt)]
      cases k - s.pipes.length <;> rfl
  datagrams := h.datagrams
  arrived := h.arrived
  once := h.once
  known := h.known

theorem streamOf_eq_some (h : s.streamOf lane = some (i, pipe)) :
    lane.stream = some i ∧ s.pipes[i]? = some pipe := by
  obtain ⟨i', hstream, h⟩ := Option.bind_eq_some_iff.1 h
  obtain ⟨pipe', hi, h⟩ := Option.bind_eq_some_iff.1 h
  cases h
  exact ⟨hstream, hi⟩

theorem streamOf_of_eq (hstream : lane.stream = some i) (hi : s.pipes[i]? = some pipe) :
    s.streamOf lane = some (i, pipe) := by
  rw [streamOf, hstream, Option.bind_eq_bind, Option.bind_some, hi]
  rfl

namespace Sound

theorem streamOf (h : s.Sound) (hl : s.lanes[l]? = some lane) (hs : s.streamOf lane = some (i, pipe)) :
    s.Grounded pipe ∧ pipe.source = lane.source ∧ pipe.writer = .writable := by
  obtain ⟨hstream, hi⟩ := streamOf_eq_some hs
  obtain ⟨pipe', hi', hsource, hwriter⟩ := h.lanes l lane i hl hstream
  rw [hi] at hi'
  cases hi'
  exact ⟨h.pipes pipe (List.mem_of_getElem? hi), hsource, hwriter⟩

theorem dropStream (h : s.Sound) (hl : s.lanes[l]? = some lane) : (s.dropStream l lane).Sound := by
  unfold LinkTraffic.dropStream
  cases hs : s.streamOf lane with
  | none => exact h
  | some r =>
    obtain ⟨i, pipe⟩ := r
    obtain ⟨hground, hsource, hwriter⟩ := h.streamOf hl hs
    obtain ⟨hstream, hi⟩ := streamOf_eq_some hs
    exact h.release hl hstream hi ⟨hground.sound.drop hwriter, hground.conn, hground.inbox, hground.closed,
      hground.delivering, hground.heard, fun _ => .inl rfl⟩ rfl rfl fun hw => by cases hw

theorem sendDatagram (h : s.Sound) (hl : s.lanes[l]? = some lane) (hfrom : s.IsFrom c lane.source)
    (hp : payload.length ≤ maxMessageSize)
    (hidle : ∀ i pipe, lane.stream = some i → s.pipes[i]? = some pipe → pipe.rest = [])
    (sent : Except DatagramError Unit) (opens : Bool) :
    (s.sendDatagram l lane payload c sent opens).Sound := by
  have hopen : (if opens then s.openStream l lane payload c else s).Sound := by
    split
    · exact h.openStream hl hfrom hp hidle
    · exact h
  cases sent with
  | error e => cases e with
    | tooLarge | unsupported => exact hopen
    | closed => exact h
  | ok _ =>
    have hext : s.Extends (s.sendDatagram l lane payload c (.ok ()) opens) := extends_of_eq rfl rfl rfl
    have hkept : (s.sendDatagram l lane payload c (.ok ()) opens).kept.Perm
        (s.datagrams.length :: s.kept) := by
      show ((s.flying ++ [s.datagrams.length]) ++ _).Perm _
      rw [List.append_assoc]
      exact List.perm_middle
    refine ⟨fun pipe hmem => (h.pipes pipe hmem).mono hext, h.lanes, h.owner, h.busy, h.subscribed, h.log, ?_,
      ?_, ?_, ?_⟩
    · intro d hd
      rcases List.mem_append.1 hd with hd | hd
      · exact h.datagrams d hd
      · cases List.mem_singleton.1 hd
        exact ⟨rfl, hfrom⟩
    · intro inbox hinbox a ha k hk
      obtain ⟨d, hd, hrest⟩ := h.arrived inbox hinbox a ha k hk
      exact ⟨d, List.getElem?_concat_eq_some.2 (.inl hd), hrest⟩
    · rw [hkept.nodup_iff, List.nodup_cons]
      exact ⟨fun hmem => Nat.lt_irrefl _ (h.known _ hmem), h.once⟩
    · intro k hk
      show k < (s.datagrams ++ [_]).length
      rw [List.length_append, List.length_singleton]
      rcases List.mem_cons.1 (hkept.mem_iff.1 hk) with rfl | hk
      · exact Nat.lt_succ_self _
      · exact Nat.lt_succ_of_lt (h.known k hk)

theorem sendOrdered (h : s.Sound) (hl : s.lanes[l]? = some lane) (hfrom : s.IsFrom c lane.source)
    (hp : payload.length ≤ maxMessageSize) (opens : Bool) :
    (s.sendOrdered l lane payload c opens).Sound := by
  unfold LinkTraffic.sendOrdered
  cases hs : s.streamOf lane with
  | none =>
    dsimp only
    split
    · refine h.openStream hl hfrom hp fun i pipe hstream hi => ?_
      rw [streamOf_of_eq hstream hi] at hs
      cases hs
    · exact h
  | some r =>
    obtain ⟨i, pipe⟩ := r
    obtain ⟨hground, hsource, hwriter⟩ := h.streamOf hl hs
    obtain ⟨hstream, hi⟩ := streamOf_eq_some hs
    dsimp only
    split
    · exact h.setPipe hi ⟨hground.sound.extend hwriter hp, hground.conn, hground.inbox, hground.closed,
        hground.delivering, hground.heard, hground.failed⟩ rfl rfl (fun _ => rfl)
        fun _ => .inr ⟨l, lane, hl, hstream⟩
    · have hdrop := h.dropStream hl
      split
      · have hrelease : s.dropStream l lane = s.release l lane i { pipe with writer := .dropped } := by
          rw [LinkTraffic.dropStream, hs]
        have hl' : (s.dropStream l lane).lanes[l]? = some { lane with stream := none } := by
          rw [hrelease]
          exact List.getElem?_set_self (List.getElem?_eq_some_iff.1 hl).1
        have hfrom' : (s.dropStream l lane).IsFrom c lane.source := by
          rw [hrelease]
          exact hfrom
        have hopen := hdrop.openStream hl' hfrom' hp fun i pipe hnone => by cases hnone
        exact hopen
      · exact hdrop

theorem send (h : s.Sound) {sent : Except DatagramError Unit} {opens : Bool}
    (hs : s.send l payload c sent opens = some s') : s'.Sound := by
  obtain ⟨lane, hl, hs⟩ := Option.bind_eq_some_iff.1 hs
  obtain ⟨conn, hc, hs⟩ := Option.bind_eq_some_iff.1 hs
  obtain ⟨⟨hidle, hnode, hgeneration⟩, hs⟩ := Option.ite_none_right_eq_some.1 hs
  have hidle : ∀ i pipe, lane.stream = some i → s.pipes[i]? = some pipe → pipe.rest = [] := by
    intro i pipe hstream hi
    rw [isIdle, streamOf_of_eq hstream hi] at hidle
    exact List.isEmpty_iff.1 hidle
  have hfrom : s.IsFrom c lane.source := ⟨conn, hc, hnode.symm, hgeneration.symm⟩
  split at hs
  · cases hs
    exact h
  · rename_i hlt
    split at hs <;> cases hs
    · exact h.sendDatagram hl hfrom (Nat.le_of_not_lt hlt) hidle sent opens
    · exact h.sendOrdered hl hfrom (Nat.le_of_not_lt hlt) opens

theorem write (h : s.Sound) (hs : s.write l n = some s') : s'.Sound := by
  obtain ⟨lane, hl, hs⟩ := Option.bind_eq_some_iff.1 hs
  obtain ⟨⟨i, pipe⟩, hstreamOf, hs⟩ := Option.bind_eq_some_iff.1 hs
  obtain ⟨⟨-, hn⟩, hs⟩ := Option.ite_none_right_eq_some.1 hs
  obtain ⟨hground, hsource, hwriter⟩ := h.streamOf hl hstreamOf
  obtain ⟨hstream, hi⟩ := streamOf_eq_some hstreamOf
  have hsound := hground.sound.write hwriter n
  dsimp only at hs
  split_ifs at hs with hlast <;> cases hs
  · have hrest : pipe.rest.drop n = [] := by rw [hlast.2, List.drop_length]
    exact h.release hl hstream hi ⟨hsound.finish hwriter hrest, hground.conn, hground.inbox, hground.closed,
      hground.delivering, hground.heard, fun hfailed => .inr (hground.hasClosed hwriter hfailed)⟩ rfl rfl
      fun hw => by cases hw
  · exact h.setPipe hi ⟨hsound, hground.conn, hground.inbox, hground.closed, hground.delivering,
      hground.heard, hground.failed⟩ rfl rfl (fun _ => rfl) fun _ => .inr ⟨l, lane, hl, hstream⟩

theorem endLane (h : s.Sound) (hs : s.endLane l = some s') : s'.Sound := by
  obtain ⟨lane, hl, hs⟩ := Option.bind_eq_some_iff.1 hs
  obtain ⟨hidle, hs⟩ := Option.ite_none_right_eq_some.1 hs
  cases hstreamOf : s.streamOf lane with
  | none =>
    rw [hstreamOf] at hs
    cases hs
    exact h
  | some r =>
    obtain ⟨i, pipe⟩ := r
    rw [hstreamOf] at hs
    cases hs
    obtain ⟨hground, hsource, hwriter⟩ := h.streamOf hl hstreamOf
    obtain ⟨hstream, hi⟩ := streamOf_eq_some hstreamOf
    rw [isIdle, hstreamOf] at hidle
    exact h.release hl hstream hi ⟨hground.sound.finish hwriter (List.isEmpty_iff.1 hidle), hground.conn,
      hground.inbox, hground.closed, hground.delivering, hground.heard,
      fun hfailed => .inr (hground.hasClosed hwriter hfailed)⟩ rfl rfl fun hw => by cases hw

/-! ### The reader -/

theorem setReader (h : s.Sound) (hi : s.pipes[i]? = some pipe) (hsound : pipe'.Sound)
    (hconn : pipe'.conn = pipe.conn) (hsource : pipe'.source = pipe.source)
    (hwriter : pipe'.writer = pipe.writer) (hhanded : pipe'.handed = pipe.handed)
    (hrest : pipe'.rest = pipe.rest)
    (hfailed : pipe'.reader = .failed → pipe'.writer = .dropped ∨ s.HasClosed pipe'.conn)
    (hdelivering : ∀ protocol j payload, pipe'.reader = .delivering protocol j payload →
      s.HasInbox j protocol false ∧ s.subscribed protocol ≠ none) : (s.setPipe i pipe').Sound := by
  have hground := h.pipes pipe (List.mem_of_getElem? hi)
  refine h.setPipe hi ⟨hsound, ?_, ?_, ?_, hdelivering, ?_, hfailed⟩ hsource hwriter (fun j => ?_)
    fun hne => .inl (hrest ▸ hne)
  · rw [hconn, hsource]
    exact hground.conn
  · rw [hhanded, hsource]
    exact hground.inbox
  · rw [hhanded, hsource]
    exact hground.closed
  · rw [hhanded, hsource]
    exact hground.heard
  · rw [WirePipe.handedTo, WirePipe.handedTo, hhanded, hsource]

theorem readFrame (h : s.Sound) (hi : s.pipes[i]? = some pipe) (hstage : pipe.reader = .frame protocol)
    (hs : s.readFrame pipe protocol = some pipe') : (s.setPipe i pipe').Sound := by
  have hground := h.pipes pipe (List.mem_of_getElem? hi)
  obtain ⟨hprotocol, _, -, -, hcases⟩ := hground.sound.nextFrame_cases hstage
  unfold LinkTraffic.readFrame at hs
  rcases hcases with ⟨-, hnext⟩ | ⟨payload, more, unread, -, -, hnext⟩ | ⟨-, hnext⟩
  · rw [hnext] at hs
    obtain ⟨hended, hs⟩ := Option.ite_none_right_eq_some.1 hs
    cases hs
    refine h.setReader hi (hground.sound.readEnd hstage hnext hended) rfl rfl rfl rfl rfl
      (fun hfailed => by cases hfailed) ?_
    intro protocol j payload hdone
    cases hdone
  · rw [hnext] at hs
    cases hs
    unfold deliver
    cases hsub : s.subscribed protocol with
    | some j =>
      refine h.setReader hi (hground.sound.readMessage hstage hnext j) rfl rfl rfl rfl rfl
        (fun hfailed => by cases hfailed) ?_
      intro protocol' j' payload' hdelivering
      cases hdelivering
      exact ⟨h.subscribed protocol j hsub, by rw [hsub]; exact Option.some_ne_none j⟩
    | none =>
      have hnobody : ∀ a ∈ pipe.handed, a.2 = .nobody := by
        intro a ha
        by_contra hne
        exact hground.heard a ha hne (hprotocol ▸ hsub)
      refine h.setPipe hi ⟨hground.sound.readOrphan hstage hnext hnobody, hground.conn, ?_, ?_, ?_, ?_,
        fun hfailed => by cases hfailed⟩ rfl rfl (fun j => ?_) fun hne => .inl hne
      · intro a ha j hj
        rcases List.mem_append.1 ha with ha | ha
        · exact hground.inbox a ha j hj
        · rw [List.mem_singleton.1 ha] at hj
          cases hj
      · intro a ha j hj
        rcases List.mem_append.1 ha with ha | ha
        · exact hground.closed a ha j hj
        · rw [List.mem_singleton.1 ha] at hj
          cases hj
      · intro protocol' j payload' hframe
        cases hframe
      · intro a ha hne
        rcases List.mem_append.1 ha with ha | ha
        · exact hground.heard a ha hne
        · rw [List.mem_singleton.1 ha] at hne
          exact absurd rfl hne
      · rw [WirePipe.handedTo, List.filterMap_append]
        exact List.append_nil _
  · rw [hnext] at hs
    obtain ⟨hended, hs⟩ := Option.ite_none_right_eq_some.1 hs
    cases hs
    refine h.setReader hi (hground.sound.readTorn hstage hnext hended) rfl rfl rfl rfl rfl
      (fun hfailed => by cases hfailed) ?_
    intro protocol j payload hdone
    cases hdone

end Sound

/-! ### The inboxes -/

theorem received_setInbox {inbox inbox' : Subscription} (hj : s.inboxes[j]? = some inbox) (i j' : ℕ) :
    (s.setInbox j inbox').received i j' = if j = j' then inbox'.received i else s.received i j' := by
  unfold received setInbox
  rw [List.getElem?_set_of_getElem? hj]
  split <;> rfl

theorem extends_setInbox {inbox inbox' : Subscription} (hj : s.inboxes[j]? = some inbox)
    (hprotocol : inbox'.protocol = inbox.protocol)
    (hclosed : inbox.isClosed = true → inbox'.isClosed = true) : s.Extends (s.setInbox j inbox') where
  conns c source h := h
  closed c h := h
  subscribed protocol h := h
  inboxes j' protocol isClosed h := by
    obtain ⟨inbox₀, hj', hprotocol', hclosed'⟩ := h
    by_cases hjj : j = j'
    · subst hjj
      rw [hj] at hj'
      cases hj'
      refine ⟨inbox', ?_, hprotocol.trans hprotocol', fun h => hclosed (hclosed' h)⟩
      rw [setInbox, List.getElem?_set_of_getElem? hj, if_pos rfl]
    · refine ⟨inbox₀, ?_, hprotocol', hclosed'⟩
      rw [setInbox, List.getElem?_set_of_getElem? hj, if_neg hjj, hj']

theorem received_push {inbox : Subscription} (hj : s.inboxes[j]? = some inbox) (arrival : Arrival)
    (i j' : ℕ) :
    (s.push j inbox arrival).received i j' = s.received i j' ++
      if j = j' ∧ arrival.origin = .stream i then [arrival.incoming] else [] := by
  rw [push, received_setInbox hj]
  by_cases hjj : j = j'
  · subst hjj
    have hbefore : s.received i j = inbox.received i := by
      rw [received, hj, Option.map_some, Option.getD_some]
    rw [if_pos rfl, hbefore]
    unfold Subscription.received
    rw [List.filterMap_append]
    by_cases horigin : arrival.origin = .stream i <;> simp [horigin]
  · rw [if_neg hjj, if_neg fun h => hjj h.1, List.append_nil]

theorem kept_push {inbox : Subscription} (hj : s.inboxes[j]? = some inbox) (arrival : Arrival) :
    (s.push j inbox arrival).kept.Perm (arrival.datagram?.toList ++ s.kept) := by
  unfold kept push setInbox
  dsimp only
  rw [List.flatMap_set hj, List.flatMap_eq_of_getElem? hj, List.filterMap_append]
  have hone : [arrival].filterMap Arrival.datagram? = arrival.datagram?.toList := by
    cases hd : arrival.datagram? <;> simp [hd]
  rw [hone]
  simp only [← List.append_assoc]
  refine List.Perm.append_right _ ?_
  refine (List.perm_append_comm).trans ?_
  simp only [List.append_assoc]
  exact List.Perm.refl _

namespace Sound

theorem setInbox (h : s.Sound) {inbox inbox' : Subscription} (hj : s.inboxes[j]? = some inbox)
    (hprotocol : inbox'.protocol = inbox.protocol) (hlog : inbox'.log = inbox.log)
    (hclosed : inbox.isClosed = true → inbox'.isClosed = true) : (s.setInbox j inbox').Sound := by
  have hext := extends_setInbox hj hprotocol hclosed
  have hkept : (s.setInbox j inbox').kept = s.kept := by
    unfold kept LinkTraffic.setInbox
    rw [List.flatMap_set_of_eq hj (congrArg (List.filterMap Arrival.datagram?) hlog)]
  refine ⟨fun pipe hmem => (h.pipes pipe hmem).mono hext, h.lanes, h.owner, h.busy,
    fun protocol j' hsub => hext.inboxes _ _ _ (h.subscribed protocol j' hsub), fun i j' => ?_, h.datagrams,
    ?_, by rw [hkept]; exact h.once, by rw [hkept]; exact h.known⟩
  · rw [received_setInbox hj]
    refine Eq.trans ?_ (h.log i j')
    split
    · rename_i hjj
      subst hjj
      rw [received, hj, Option.map_some, Option.getD_some, Subscription.received, Subscription.received, hlog]
    · rfl
  · intro inbox₀ hmem a ha k hk
    rcases List.mem_or_eq_of_mem_set hmem with hmem | rfl
    · exact h.arrived inbox₀ hmem a ha k hk
    · rw [hprotocol]
      exact h.arrived inbox (List.mem_of_getElem? hj) a (hlog ▸ ha) k hk

theorem deliver (h : s.Sound) (hi : s.pipes[i]? = some pipe)
    (hstage : pipe.reader = .delivering protocol j payload) {inbox : Subscription}
    (hj : s.inboxes[j]? = some inbox) : ((s.setPipe i { pipe with
      reader := .frame protocol, handed := pipe.handed ++ [(payload, .inbox j)] }).push j inbox
        ⟨.stream i, pipe.source.incoming payload⟩).Sound := by
  set pipe' : WirePipe := { pipe with
    reader := .frame protocol
    handed := pipe.handed ++ [(payload, .inbox j)] } with hpipe'
  set s₁ := s.setPipe i pipe' with hs₁
  set arrival : Arrival := ⟨.stream i, pipe.source.incoming payload⟩ with harrival
  have hground := h.pipes pipe (List.mem_of_getElem? hi)
  have hprotocol : protocol = pipe.source.protocol := by
    obtain ⟨remaining, -, hreads⟩ := hground.sound.reads
    rw [hstage] at hreads
    exact hreads.1
  obtain ⟨⟨inbox₀, hj', hinbox, -⟩, hsub⟩ := hground.delivering protocol j payload hstage
  rw [hj] at hj'
  cases hj'
  have hext : s.Extends (s₁.push j inbox arrival) := by
    have hpush : s.Extends (s.push j inbox arrival) := extends_setInbox hj rfl id
    exact ⟨hpush.conns, hpush.closed, hpush.inboxes, hpush.subscribed⟩
  have hset : ∀ j', pipe'.handedTo j' = pipe.handedTo j' ++
      if j = j' then [pipe.source.incoming payload] else [] := by
    intro j'
    rw [WirePipe.handedTo, WirePipe.handedTo, List.filterMap_append]
    by_cases hjj : j = j' <;> simp [hpipe', hjj]
  refine ⟨fun pipe₀ hmem => ?_, fun l lane k hl hstream => ?_, h.owner, fun k pipe₀ hk hw hrest => ?_,
    fun protocol' j' hsub' => hext.inboxes _ _ _ (h.subscribed protocol' j' hsub'), fun k j' => ?_,
    h.datagrams, ?_, ?_, ?_⟩
  · rcases List.mem_or_eq_of_mem_set hmem with hmem | rfl
    · exact (h.pipes pipe₀ hmem).mono hext
    · refine Grounded.mono (s := s) ⟨hground.sound.hand hstage (fun heq => by cases heq), hground.conn, ?_,
        ?_, ?_, ?_, fun hfailed => by cases hfailed⟩ hext
      · intro a ha j' hj'
        rcases List.mem_append.1 ha with ha | ha
        · exact hground.inbox a ha j' hj'
        · rw [List.mem_singleton.1 ha] at hj'
          cases hj'
          exact ⟨inbox, hj, hinbox.trans hprotocol, fun hfalse => by cases hfalse⟩
      · intro a ha j' hj'
        rcases List.mem_append.1 ha with ha | ha
        · exact hground.closed a ha j' hj'
        · rw [List.mem_singleton.1 ha] at hj'
          cases hj'
      · intro protocol' j' payload' hframe
        cases hframe
      · intro a ha hne
        exact hprotocol ▸ hsub
  · obtain ⟨pipe₀, hk, hsource, hwriter⟩ := h.lanes l lane k hl hstream
    show ∃ pipe₁ : WirePipe, (s.pipes.set i _)[k]? = some pipe₁ ∧ _
    rw [List.getElem?_set_of_getElem? hi]
    split
    · rename_i hik
      subst hik
      rw [hi] at hk
      cases hk
      exact ⟨_, rfl, hsource, hwriter⟩
    · exact ⟨pipe₀, hk, hsource, hwriter⟩
  · have hset' : (s.pipes.set i pipe')[k]? = some pipe₀ := hk
    rw [List.getElem?_set_of_getElem? hi] at hset'
    split at hset'
    · rename_i hik
      subst hik
      cases hset'
      exact h.busy i pipe hi hw hrest
    · exact h.busy k pipe₀ hset' hw hrest
  · have hpush := received_push (s := s₁) hj arrival k j'
    rw [hpush]
    have hlog : s₁.received k j' = s.handedTo k j' := h.log k j'
    have hafter : (s₁.push j inbox arrival).handedTo k j' = _ := handedTo_set hi rfl k j'
    rw [hlog, hafter]
    by_cases hik : i = k
    · subst hik
      rw [if_pos rfl, hset, handedTo, hi, Option.map_some, Option.getD_some]
      by_cases hjj : j = j' <;> simp [harrival, hjj]
    · rw [if_neg hik, if_neg fun hboth => hik (Origin.stream.inj hboth.2), List.append_nil]
  · intro inbox₀ hmem a ha k hk
    rcases List.mem_or_eq_of_mem_set hmem with hmem | rfl
    · exact h.arrived inbox₀ hmem a ha k hk
    · rcases List.mem_append.1 ha with ha | ha
      · exact h.arrived inbox (List.mem_of_getElem? hj) a ha k hk
      · rw [List.mem_singleton.1 ha] at hk
        cases hk
  · exact (kept_push (s := s₁) hj arrival).nodup_iff.2 h.once
  · intro k hk
    exact h.known k ((kept_push (s := s₁) hj arrival).mem_iff.1 hk)

theorem deliverClosed (h : s.Sound) (hi : s.pipes[i]? = some pipe)
    (hstage : pipe.reader = .delivering protocol j payload) {inbox : Subscription}
    (hj : s.inboxes[j]? = some inbox) (hclosed : inbox.isClosed = true) : (s.setPipe i { pipe with
      reader := .frame protocol, handed := pipe.handed ++ [(payload, .closed j)] }).Sound := by
  have hground := h.pipes pipe (List.mem_of_getElem? hi)
  have hprotocol : protocol = pipe.source.protocol := by
    obtain ⟨remaining, -, hreads⟩ := hground.sound.reads
    rw [hstage] at hreads
    exact hreads.1
  obtain ⟨⟨inbox₀, hj', hinbox, -⟩, hsub⟩ := hground.delivering protocol j payload hstage
  rw [hj] at hj'
  cases hj'
  refine h.setPipe hi ⟨hground.sound.hand hstage (fun heq => by cases heq), hground.conn, ?_, ?_, ?_, ?_,
    fun hfailed => by cases hfailed⟩ rfl rfl (fun j' => ?_) fun hne => .inl hne
  · intro a ha j' hj'
    rcases List.mem_append.1 ha with ha | ha
    · exact hground.inbox a ha j' hj'
    · rw [List.mem_singleton.1 ha] at hj'
      cases hj'
  · intro a ha j' hj'
    rcases List.mem_append.1 ha with ha | ha
    · exact hground.closed a ha j' hj'
    · rw [List.mem_singleton.1 ha] at hj'
      cases hj'
      exact ⟨inbox, hj, hinbox.trans hprotocol, fun _ => hclosed⟩
  · intro protocol' j' payload' hframe
    cases hframe
  · intro a ha hne
    exact hprotocol ▸ hsub
  · rw [WirePipe.handedTo, List.filterMap_append]
    exact List.append_nil _

theorem incoming_eq (h : s.Grounded pipe) {incoming : Incoming}
    (hs : s.incoming pipe.conn payload = some incoming) : incoming = pipe.source.incoming payload := by
  obtain ⟨conn, hc, hnode, hgeneration⟩ := h.conn
  rw [LinkTraffic.incoming, hc] at hs
  cases hs
  dsimp only
  rw [LaneSource.incoming, hnode, hgeneration]

theorem read (h : s.Sound) (hs : s.read i = some s') : s'.Sound := by
  obtain ⟨pipe, hi, hs⟩ := Option.bind_eq_some_iff.1 hs
  have hground := h.pipes pipe (List.mem_of_getElem? hi)
  cases hstage : pipe.reader with
  | protocol =>
    rw [hstage] at hs
    cases hunread : pipe.unread with
    | nil =>
      rw [hunread] at hs
      obtain ⟨hended, hs⟩ := Option.ite_none_right_eq_some.1 hs
      cases hs
      have hread := hground.sound.readNothing hstage hunread hended
      rw [hunread] at hread
      refine h.setReader hi hread rfl rfl rfl rfl rfl (fun hfailed => by cases hfailed) ?_
      intro protocol j payload hdone
      cases hdone
    | cons protocol unread =>
      rw [hunread] at hs
      cases hs
      refine h.setReader hi (hground.sound.readProtocol hstage hunread) rfl rfl rfl rfl rfl
        (fun hfailed => by cases hfailed) ?_
      intro protocol j payload hframe
      cases hframe
  | frame protocol =>
    rw [hstage] at hs
    obtain ⟨pipe', hpipe', rfl⟩ := Option.map_eq_some_iff.1 hs
    exact h.readFrame hi hstage hpipe'
  | delivering protocol j payload =>
    rw [hstage] at hs
    obtain ⟨inbox, hj, hs⟩ := Option.bind_eq_some_iff.1 hs
    obtain ⟨incoming, hincoming, hs⟩ := Option.bind_eq_some_iff.1 hs
    split_ifs at hs with hclosed hroom
    · cases hs
      exact h.deliverClosed hi hstage hj hclosed
    · cases hs
      rw [incoming_eq hground hincoming]
      exact h.deliver hi hstage hj
  | done result => rw [hstage] at hs; cases hs
  | failed => rw [hstage] at hs; cases hs

theorem erase (h : s.Sound) (k : ℕ) : ({ s with flying := s.flying.erase k } : LinkTraffic).Sound := by
  have hsub : ({ s with flying := s.flying.erase k } : LinkTraffic).kept.Sublist s.kept :=
    List.erase_sublist.append (List.Sublist.refl _)
  have hext : s.Extends { s with flying := s.flying.erase k } := extends_of_eq rfl rfl rfl
  exact ⟨fun pipe hmem => (h.pipes pipe hmem).mono hext, h.lanes, h.owner, h.busy, h.subscribed, h.log,
    h.datagrams, h.arrived, h.once.sublist hsub, fun k' hk' => h.known k' (hsub.subset hk')⟩

theorem recvDatagram (h : s.Sound) (hs : s.recvDatagram k = some s') : s'.Sound := by
  obtain ⟨hflying, hs⟩ := Option.ite_none_right_eq_some.1 hs
  obtain ⟨d, hd, hs⟩ := Option.bind_eq_some_iff.1 hs
  obtain ⟨hbytes, hfrom⟩ := h.datagrams d (List.mem_of_getElem? hd)
  obtain ⟨-, hs⟩ := Option.ite_none_left_eq_some.1 hs
  rw [hbytes] at hs
  have herase := h.erase k
  cases hsub : s.subscribed d.source.protocol with
  | none =>
    simp only [hsub] at hs
    cases hs
    exact herase
  | some j =>
    simp only [hsub] at hs
    obtain ⟨inbox, hj, hs⟩ := Option.bind_eq_some_iff.1 hs
    obtain ⟨incoming, hincoming, hs⟩ := Option.bind_eq_some_iff.1 hs
    split_ifs at hs with hroom
    · cases hs
      have hincoming : incoming = d.source.incoming d.payload := by
        obtain ⟨conn, hc, hnode, hgeneration⟩ := hfrom
        rw [LinkTraffic.incoming, hc] at hincoming
        cases hincoming
        dsimp only
        rw [LaneSource.incoming, hnode, hgeneration]
      subst hincoming
      set s₁ : LinkTraffic := { s with flying := s.flying.erase k } with hs₁
      set arrival : Arrival := ⟨.datagram k, d.source.incoming d.payload⟩ with harrival
      have hext : s₁.Extends (s₁.push j inbox arrival) := extends_setInbox hj rfl id
      have hkept : (s₁.push j inbox arrival).kept.Perm s.kept := by
        refine (kept_push (s := s₁) hj arrival).trans ?_
        show (k :: (s.flying.erase k ++ _)).Perm (s.flying ++ _)
        exact ((List.perm_cons_erase hflying).symm.append_right _)
      obtain ⟨inbox₀, hj', hinbox, -⟩ := h.subscribed _ j hsub
      rw [hj] at hj'
      cases hj'
      refine ⟨fun pipe hmem => (herase.pipes pipe hmem).mono hext, h.lanes, h.owner, h.busy,
        fun protocol j' hsub' => hext.inboxes _ _ _ (h.subscribed protocol j' hsub'), fun i j' => ?_,
        h.datagrams, ?_, hkept.nodup_iff.2 h.once, fun k' hk' => h.known k' (hkept.mem_iff.1 hk')⟩
      · have hpush := received_push (s := s₁) hj arrival i j'
        rw [hpush, if_neg (fun hboth => by cases hboth.2), List.append_nil]
        exact h.log i j'
      · intro inbox₀ hmem a ha k' hk'
        rcases List.mem_or_eq_of_mem_set hmem with hmem | rfl
        · exact h.arrived inbox₀ hmem a ha k' hk'
        · rcases List.mem_append.1 ha with ha | ha
          · exact h.arrived inbox (List.mem_of_getElem? hj) a ha k' hk'
          · cases List.mem_singleton.1 ha
            cases hk'
            exact ⟨d, hd, hinbox.symm, rfl⟩
    · cases hs
      exact herase

theorem subscribe (h : s.Sound) (protocol : UInt8) (hs : s.step (.subscribe protocol) = some s') :
    s'.Sound := by
  cases hs
  have hext : s.Extends { s with
      inboxes := s.inboxes ++ [⟨protocol, [], 0, false⟩]
      subscribed := Function.update s.subscribed protocol (some s.inboxes.length) } := by
    refine ⟨fun c source hfrom => hfrom, fun c hclosed => hclosed, ?_, ?_⟩
    · rintro j protocol' isClosed ⟨inbox, hj, hrest⟩
      exact ⟨inbox, List.getElem?_concat_eq_some.2 (.inl hj), hrest⟩
    · intro protocol' hne
      show Function.update _ _ _ _ ≠ _
      rw [Function.update_apply]
      split
      · exact Option.some_ne_none _
      · exact hne
  have hkept : kept { s with
      inboxes := s.inboxes ++ [⟨protocol, [], 0, false⟩]
      subscribed := Function.update s.subscribed protocol (some s.inboxes.length) } = s.kept := by
    unfold kept
    rw [List.flatMap_append]
    exact congrArg (s.flying ++ ·) (List.append_nil _)
  refine ⟨fun pipe hmem => (h.pipes pipe hmem).mono hext, h.lanes, h.owner, h.busy, ?_, fun i j => ?_,
    h.datagrams, ?_,
    by rw [hkept]; exact h.once, by rw [hkept]; exact h.known⟩
  · intro protocol' j hsub
    have hsub : Function.update s.subscribed protocol (some s.inboxes.length) protocol' = some j := hsub
    rw [Function.update_apply] at hsub
    split at hsub
    · rename_i heq
      cases hsub
      exact ⟨_, List.getElem?_concat_length, heq.symm, id⟩
    · exact hext.inboxes _ _ _ (h.subscribed protocol' j hsub)
  · refine Eq.trans ?_ (h.log i j)
    unfold received
    dsimp only
    rw [List.getElem?_append]
    split
    · rfl
    · rename_i hlt
      rw [List.getElem?_eq_none (Nat.le_of_not_lt hlt)]
      cases j - s.inboxes.length <;> rfl
  · intro inbox hmem a ha k hk
    rcases List.mem_append.1 hmem with hmem | hmem
    · exact h.arrived inbox hmem a ha k hk
    · cases List.mem_singleton.1 hmem
      cases ha

theorem conns (h : s.Sound) {conns : List PeerConn}
    (hconns : ∀ c (source : LaneSource), s.IsFrom c source →
      ({ s with conns := conns } : LinkTraffic).IsFrom c source)
    (hclosed : ∀ c, s.HasClosed c → ({ s with conns := conns } : LinkTraffic).HasClosed c) :
    ({ s with conns := conns } : LinkTraffic).Sound := by
  have hext : s.Extends { s with conns := conns } := ⟨hconns, hclosed, fun _ _ _ h => h, fun _ h => h⟩
  exact ⟨fun pipe hmem => (h.pipes pipe hmem).mono hext, h.lanes, h.owner, h.busy, h.subscribed, h.log,
    fun d hd => ⟨(h.datagrams d hd).1, hconns _ _ (h.datagrams d hd).2⟩, h.arrived, h.once, h.known⟩

theorem step (h : s.Sound) (hs : s.step e = some s') : s'.Sound := by
  cases e with
  | connect peer generation =>
    cases hs
    refine h.conns (fun c source => ?_) fun c => ?_
    · rintro ⟨conn, hc, hrest⟩
      exact ⟨conn, List.getElem?_concat_eq_some.2 (.inl hc), hrest⟩
    · rintro ⟨conn, hc, hrest⟩
      exact ⟨conn, List.getElem?_concat_eq_some.2 (.inl hc), hrest⟩
  | close c =>
    obtain ⟨conn, hc, rfl⟩ := Option.map_eq_some_iff.1 hs
    refine h.conns (fun c' source => ?_) fun c' => ?_
    · rintro ⟨conn', hc', hrest⟩
      unfold IsFrom
      dsimp only
      rw [List.getElem?_set_of_getElem? hc]
      split
      · rename_i heq
        subst heq
        rw [hc] at hc'
        cases hc'
        exact ⟨_, rfl, hrest⟩
      · exact ⟨conn', hc', hrest⟩
    · rintro ⟨conn', hc', hrest⟩
      unfold HasClosed
      dsimp only
      rw [List.getElem?_set_of_getElem? hc]
      split
      · exact ⟨_, rfl, rfl⟩
      · exact ⟨conn', hc', hrest⟩
  | startLane source delivery =>
    cases hs
    have hext : s.Extends { s with lanes := s.lanes ++ [⟨source, delivery, none⟩] } :=
      extends_of_eq rfl rfl rfl
    have hlane : ∀ {l : ℕ} {lane : LaneWriter} {i : ℕ},
        (s.lanes ++ [⟨source, delivery, none⟩])[l]? = some lane → lane.stream = some i →
        s.lanes[l]? = some lane := by
      intro l lane i hl hstream
      rcases List.getElem?_concat_eq_some.1 hl with hl | ⟨-, rfl⟩
      · exact hl
      · cases hstream
    exact ⟨fun pipe hmem => (h.pipes pipe hmem).mono hext,
      fun l lane i hl hstream => h.lanes l lane i (hlane hl hstream) hstream,
      fun l l' lane lane' i hl hl' hstream hstream' =>
        h.owner l l' lane lane' i (hlane hl hstream) (hlane hl' hstream') hstream hstream',
      fun i pipe hi hw hrest => by
        obtain ⟨l, lane, hl, hstream⟩ := h.busy i pipe hi hw hrest
        exact ⟨l, lane, List.getElem?_concat_eq_some.2 (.inl hl), hstream⟩,
      h.subscribed, h.log, h.datagrams, h.arrived, h.once, h.known⟩
  | send l payload c sent opens => exact h.send hs
  | write l n => exact h.write hs
  | loseStream l =>
    obtain ⟨lane, hl, rfl⟩ := Option.map_eq_some_iff.1 hs
    exact h.dropStream hl
  | endLane l => exact h.endLane hs
  | arrive i n =>
    obtain ⟨pipe, hi, hs⟩ := Option.bind_eq_some_iff.1 hs
    obtain ⟨-, hs⟩ := Option.ite_none_right_eq_some.1 hs
    cases hs
    have hground := h.pipes pipe (List.mem_of_getElem? hi)
    exact h.setReader hi (hground.sound.arrive n) rfl rfl rfl rfl rfl hground.failed hground.delivering
  | endArrives i =>
    obtain ⟨pipe, hi, hs⟩ := Option.bind_eq_some_iff.1 hs
    obtain ⟨⟨hwriter, hnil, -⟩, hs⟩ := Option.ite_none_right_eq_some.1 hs
    cases hs
    have hground := h.pipes pipe (List.mem_of_getElem? hi)
    exact h.setReader hi (hground.sound.endArrives hwriter hnil) rfl rfl rfl rfl rfl hground.failed
      hground.delivering
  | readFails i =>
    obtain ⟨pipe, hi, hs⟩ := Option.bind_eq_some_iff.1 hs
    obtain ⟨hwhy, hs⟩ := Option.ite_none_right_eq_some.1 hs
    cases hs
    have hground := h.pipes pipe (List.mem_of_getElem? hi)
    refine h.setReader hi hground.sound.fail rfl rfl rfl rfl rfl (fun _ => ?_) ?_
    · obtain ⟨conn, hc, -⟩ := hground.conn
      rw [isClosed, hc] at hwhy
      exact hwhy.symm.imp id fun hclosed => ⟨conn, hc, hclosed⟩
    intro protocol j payload hfailed
    cases hfailed
  | read i => exact h.read hs
  | recvDatagram k => exact h.recvDatagram hs
  | loseDatagram k =>
    obtain ⟨-, hs⟩ := Option.ite_none_right_eq_some.1 hs
    cases hs
    exact h.erase k
  | subscribe protocol => exact h.subscribe protocol hs
  | closeInbox j =>
    obtain ⟨inbox, hj, rfl⟩ := Option.map_eq_some_iff.1 hs
    exact h.setInbox hj rfl rfl fun _ => rfl
  | recv j =>
    obtain ⟨inbox, hj, hs⟩ := Option.bind_eq_some_iff.1 hs
    obtain ⟨-, hs⟩ := Option.ite_none_right_eq_some.1 hs
    cases hs
    exact h.setInbox hj rfl rfl id

end Sound

theorem sound_of_reachable (h : runs.Reachable s) : s.Sound := by
  refine h.invariant (I := Sound) ?_ fun _ _ _ hI hs => hI.step hs
  rintro _ rfl
  refine ⟨?_, ?_, ?_, ?_, ?_, fun i j => rfl, ?_, ?_, List.nodup_nil, ?_⟩
  · intro pipe hmem
    cases hmem
  · intro l lane i hl
    cases hl
  · intro l l' lane lane' i hl
    cases hl
  · intro i pipe hi
    cases hi
  · intro protocol j hsub
    cases hsub
  · intro d hd
    cases hd
  · intro inbox hmem
    cases hmem
  · intro k hk
    cases hk

/-! ## Who is there to hear it -/

/-- What the stream `i` has handed over. -/
def handed (s : LinkTraffic) (i : ℕ) : List (Bytes × HandOver) := ((s.pipes[i]?).map WirePipe.handed).getD []

/-- On the way to `s'`, no stream hands anything to nobody whose protocol has a subscriber in `s`. -/
structure Hears (s s' : LinkTraffic) : Prop where
  subscribed : ∀ protocol, s.subscribed protocol ≠ none → s'.subscribed protocol ≠ none
  source : ∀ (i : ℕ) (pipe : WirePipe), s.pipes[i]? = some pipe →
    ∃ pipe' : WirePipe, s'.pipes[i]? = some pipe' ∧ pipe'.source = pipe.source
  handed : ∀ (i : ℕ) (pipe' : WirePipe), s'.pipes[i]? = some pipe' →
    ∃ after, pipe'.handed = s.handed i ++ after ∧
    (s.subscribed pipe'.source.protocol ≠ none → ∀ h ∈ after, h.2 ≠ .nobody)

theorem handed_of_some (hi : s.pipes[i]? = some pipe) : s.handed i = pipe.handed := by
  rw [handed, hi]
  rfl

theorem Hears.trans {t : LinkTraffic} (h : s.Hears t) (h' : t.Hears s') : s.Hears s' := by
  refine ⟨fun protocol hsub => h'.subscribed protocol (h.subscribed protocol hsub), fun i pipe hi => ?_,
    fun i pipe' hi => ?_⟩
  · obtain ⟨pipe₁, hi₁, hsource₁⟩ := h.source i pipe hi
    obtain ⟨pipe₂, hi₂, hsource₂⟩ := h'.source i pipe₁ hi₁
    exact ⟨pipe₂, hi₂, hsource₂.trans hsource₁⟩
  · obtain ⟨later, hlater, hnobody'⟩ := h'.handed i pipe' hi
    cases hi₁ : t.pipes[i]? with
    | none =>
      -- the stream was not there before
      have hnone : s.pipes[i]? = none := by
        by_contra hsome
        obtain ⟨pipe, hpipe⟩ := Option.ne_none_iff_exists'.1 hsome
        obtain ⟨pipe₁, hpipe₁, -⟩ := h.source i pipe hpipe
        rw [hi₁] at hpipe₁
        cases hpipe₁
      refine ⟨later, ?_, fun hsub => hnobody' (h.subscribed _ hsub)⟩
      rw [hlater, LinkTraffic.handed, LinkTraffic.handed, hi₁, hnone]
    | some pipe₁ =>
      obtain ⟨after, hafter, hnobody⟩ := h.handed i pipe₁ hi₁
      obtain ⟨pipe₂, hi₂, hsource⟩ := h'.source i pipe₁ hi₁
      rw [hi] at hi₂
      cases hi₂
      refine ⟨after ++ later, ?_, fun hsub => ?_⟩
      · rw [hlater, handed_of_some hi₁, hafter, List.append_assoc]
      · rw [List.forall_mem_append]
        exact ⟨hnobody (hsource ▸ hsub), hnobody' (h.subscribed _ hsub)⟩

theorem hears_of_eq (hpipes : s'.pipes = s.pipes)
    (hsub : ∀ protocol, s.subscribed protocol ≠ none → s'.subscribed protocol ≠ none) : s.Hears s' := by
  refine ⟨hsub, fun i pipe hi => ⟨pipe, hpipes ▸ hi, rfl⟩, fun i pipe' hi => ?_⟩
  rw [hpipes] at hi
  exact ⟨[], by rw [handed_of_some hi, List.append_nil], fun _ => List.forall_mem_nil _⟩

theorem Hears.refl (s : LinkTraffic) : s.Hears s := hears_of_eq rfl fun _ => id

theorem hears_of_set (hi : s.pipes[i]? = some pipe) (hpipes : s'.pipes = s.pipes.set i pipe')
    (hsub : s'.subscribed = s.subscribed) (hsource : pipe'.source = pipe.source)
    (after : List (Bytes × HandOver))
    (hhanded : pipe'.handed = pipe.handed ++ after)
    (hafter : s.subscribed pipe.source.protocol ≠ none → ∀ h ∈ after, h.2 ≠ .nobody) : s.Hears s' := by
  have hget : ∀ k, s'.pipes[k]? = if i = k then some pipe' else s.pipes[k]? := by
    intro k
    rw [hpipes, List.getElem?_set_of_getElem? hi]
  refine ⟨fun _ hne => hsub ▸ hne, fun k pipe₀ hk => ?_, fun k pipe₀ hk => ?_⟩
  · rw [hget]
    split
    · rename_i hik
      subst hik
      rw [hi] at hk
      cases hk
      exact ⟨pipe', rfl, hsource⟩
    · exact ⟨pipe₀, hk, rfl⟩
  · rw [hget] at hk
    split at hk
    · rename_i hik
      subst hik
      cases hk
      refine ⟨after, by rw [handed_of_some hi, hhanded], ?_⟩
      rwa [hsource]
    · exact ⟨[], by rw [handed_of_some hk, List.append_nil], fun _ => List.forall_mem_nil _⟩

theorem hears_of_same (hi : s.pipes[i]? = some pipe) (hpipes : s'.pipes = s.pipes.set i pipe')
    (hsub : s'.subscribed = s.subscribed) (hsource : pipe'.source = pipe.source)
    (hhanded : pipe'.handed = pipe.handed) : s.Hears s' :=
  hears_of_set hi hpipes hsub hsource [] (by rw [hhanded, List.append_nil]) fun _ => List.forall_mem_nil _

theorem hears_dropStream (s : LinkTraffic) (l : ℕ) (lane : LaneWriter) : s.Hears (s.dropStream l lane) := by
  unfold dropStream
  split
  · exact .refl s
  · rename_i i pipe hstream
    exact hears_of_same (streamOf_eq_some hstream).2 rfl rfl rfl rfl

theorem hears_openStream (s : LinkTraffic) (l : ℕ) (lane : LaneWriter) (payload : Bytes) (c : ℕ) :
    s.Hears (s.openStream l lane payload c) := by
  refine ⟨fun _ => id, fun i pipe hi => ⟨pipe, List.getElem?_concat_eq_some.2 (.inl hi), rfl⟩,
    fun i pipe hi => ⟨[], ?_, fun _ => List.forall_mem_nil _⟩⟩
  rcases List.getElem?_concat_eq_some.1 hi with hi | ⟨rfl, rfl⟩
  · rw [handed_of_some hi, List.append_nil]
  · rw [handed, List.getElem?_eq_none le_rfl]
    rfl

theorem hears_sendOrdered (s : LinkTraffic) (l : ℕ) (lane : LaneWriter) (payload : Bytes) (c : ℕ)
    (opens : Bool) : s.Hears (s.sendOrdered l lane payload c opens) := by
  unfold sendOrdered
  split
  · rename_i i pipe hstream
    split
    · exact hears_of_same (streamOf_eq_some hstream).2 rfl rfl rfl rfl
    · split
      · exact (hears_dropStream s l lane).trans (hears_openStream _ l lane payload c)
      · exact hears_dropStream s l lane
  · split
    · exact hears_openStream s l lane payload c
    · exact .refl s

theorem hears_send {sent : Except DatagramError Unit} {opens : Bool}
    (hs : s.send l payload c sent opens = some s') : s.Hears s' := by
  obtain ⟨lane, -, hs⟩ := Option.bind_eq_some_iff.1 hs
  obtain ⟨conn, -, hs⟩ := Option.bind_eq_some_iff.1 hs
  obtain ⟨-, hs⟩ := Option.ite_none_right_eq_some.1 hs
  split at hs
  · cases hs
    exact .refl s
  · split at hs <;> cases hs
    · unfold sendDatagram
      split
      · exact hears_of_eq rfl fun _ => id
      · split
        · exact hears_openStream s l lane payload c
        · exact .refl s
      · split
        · exact hears_openStream s l lane payload c
        · exact .refl s
      · exact .refl s
    · exact hears_sendOrdered s l lane payload c opens

theorem hears_readFrame (h : s.Sound) (hi : s.pipes[i]? = some pipe) (hstage : pipe.reader = .frame protocol)
    (hs : s.readFrame pipe protocol = some pipe') : s.Hears (s.setPipe i pipe') := by
  obtain ⟨remaining, -, hreads⟩ := (h.pipes pipe (List.mem_of_getElem? hi)).sound.reads
  rw [hstage] at hreads
  obtain ⟨rfl, -⟩ := hreads
  unfold readFrame at hs
  split at hs
  · cases hs
    unfold deliver
    cases hsub : s.subscribed pipe.source.protocol with
    | none => exact hears_of_set hi rfl rfl rfl _ rfl fun hne => absurd hsub hne
    | some j => exact hears_of_same hi rfl rfl rfl rfl
  · obtain ⟨-, hs⟩ := Option.ite_none_right_eq_some.1 hs
    cases hs
    exact hears_of_same hi rfl rfl rfl rfl
  · obtain ⟨-, hs⟩ := Option.ite_none_right_eq_some.1 hs
    cases hs
    exact hears_of_same hi rfl rfl rfl rfl
  · cases hs
    exact hears_of_same hi rfl rfl rfl rfl

theorem hears_read (h : s.Sound) (hs : s.read i = some s') : s.Hears s' := by
  obtain ⟨pipe, hi, hs⟩ := Option.bind_eq_some_iff.1 hs
  cases hstage : pipe.reader with
  | protocol =>
    rw [hstage] at hs
    dsimp only at hs
    split at hs
    · obtain ⟨-, hs⟩ := Option.ite_none_right_eq_some.1 hs
      cases hs
      exact hears_of_same hi rfl rfl rfl rfl
    · cases hs
      exact hears_of_same hi rfl rfl rfl rfl
  | frame protocol =>
    rw [hstage] at hs
    obtain ⟨pipe', hread, rfl⟩ := Option.map_eq_some_iff.1 hs
    exact hears_readFrame h hi hstage hread
  | delivering protocol j payload =>
    rw [hstage] at hs
    obtain ⟨inbox, -, hs⟩ := Option.bind_eq_some_iff.1 hs
    obtain ⟨incoming, -, hs⟩ := Option.bind_eq_some_iff.1 hs
    split_ifs at hs <;> cases hs
    · refine hears_of_set hi rfl rfl rfl _ rfl fun _ => List.forall_mem_singleton.2 ?_
      intro hclosed
      cases hclosed
    · refine hears_of_set hi rfl rfl rfl _ rfl fun _ => List.forall_mem_singleton.2 ?_
      intro hinbox
      cases hinbox
  | done result => rw [hstage] at hs; cases hs
  | failed => rw [hstage] at hs; cases hs

theorem hears_of_step (h : s.Sound) (hs : s.step e = some s') : s.Hears s' := by
  cases e with
  | connect _ _ | startLane _ _ => cases hs; exact hears_of_eq rfl fun _ => id
  | close c =>
    obtain ⟨conn, -, rfl⟩ := Option.map_eq_some_iff.1 hs
    exact hears_of_eq rfl fun _ => id
  | send l payload c sent opens => exact hears_send hs
  | write l n =>
    obtain ⟨lane, -, hs⟩ := Option.bind_eq_some_iff.1 hs
    obtain ⟨⟨i, pipe⟩, hstream, hs⟩ := Option.bind_eq_some_iff.1 hs
    obtain ⟨-, hs⟩ := Option.ite_none_right_eq_some.1 hs
    dsimp only at hs
    split_ifs at hs <;> cases hs <;> exact hears_of_same (streamOf_eq_some hstream).2 rfl rfl rfl rfl
  | loseStream l =>
    obtain ⟨lane, -, rfl⟩ := Option.map_eq_some_iff.1 hs
    exact hears_dropStream s l lane
  | endLane l =>
    obtain ⟨lane, -, hs⟩ := Option.bind_eq_some_iff.1 hs
    obtain ⟨-, hs⟩ := Option.ite_none_right_eq_some.1 hs
    split at hs
    · cases hs
      exact .refl s
    · rename_i i pipe hstream
      cases hs
      exact hears_of_same (streamOf_eq_some hstream).2 rfl rfl rfl rfl
  | arrive i n | endArrives i | readFails i =>
    obtain ⟨pipe, hi, hs⟩ := Option.bind_eq_some_iff.1 hs
    obtain ⟨-, hs⟩ := Option.ite_none_right_eq_some.1 hs
    cases hs
    exact hears_of_same hi rfl rfl rfl rfl
  | read i => exact hears_read h hs
  | recvDatagram k =>
    obtain ⟨-, hs⟩ := Option.ite_none_right_eq_some.1 hs
    obtain ⟨d, -, hs⟩ := Option.bind_eq_some_iff.1 hs
    obtain ⟨-, hs⟩ := Option.ite_none_left_eq_some.1 hs
    split at hs
    · cases hs
      exact hears_of_eq rfl fun _ => id
    · split at hs
      · cases hs
        exact hears_of_eq rfl fun _ => id
      · obtain ⟨inbox, -, hs⟩ := Option.bind_eq_some_iff.1 hs
        obtain ⟨incoming, -, hs⟩ := Option.bind_eq_some_iff.1 hs
        split_ifs at hs <;> cases hs <;> exact hears_of_eq rfl fun _ => id
  | loseDatagram k =>
    obtain ⟨-, hs⟩ := Option.ite_none_right_eq_some.1 hs
    cases hs
    exact hears_of_eq rfl fun _ => id
  | subscribe protocol =>
    cases hs
    refine hears_of_eq rfl fun protocol' hne => ?_
    show Function.update s.subscribed protocol (some s.inboxes.length) protocol' ≠ none
    rw [Function.update_apply]
    split
    · exact Option.some_ne_none _
    · exact hne
  | closeInbox j =>
    obtain ⟨inbox, -, rfl⟩ := Option.map_eq_some_iff.1 hs
    exact hears_of_eq rfl fun _ => id
  | recv j =>
    obtain ⟨inbox, -, hs⟩ := Option.bind_eq_some_iff.1 hs
    obtain ⟨-, hs⟩ := Option.ite_none_right_eq_some.1 hs
    cases hs
    exact hears_of_eq rfl fun _ => id

theorem hears_of_exec {es : List Event} (h : s.Sound) (hs : Lts.exec step s es = some s') : s.Hears s' := by
  induction es generalizing s with
  | nil =>
    cases hs
    exact .refl _
  | cons e es ih =>
    obtain ⟨t, ht, hs⟩ := Option.bind_eq_some_iff.1 hs
    exact (hears_of_step h ht).trans (ih (h.step ht) hs)

/-- A datagram is put into the inbox of the subscriber, if that has room. -/
theorem recvDatagram_of_hasRoom {d : Datagram} {inbox : Subscription} (h : s.Sound)
    (hs : s.recvDatagram k = some s') (hd : s.datagrams[k]? = some d)
    (hsub : s.subscribed d.source.protocol = some j) (hj : s.inboxes[j]? = some inbox)
    (hopen : inbox.isClosed = false) (hroom : inbox.hasRoom = true) : s'.inboxes[j]? =
      some { inbox with log := inbox.log ++ [⟨.datagram k, d.source.incoming d.payload⟩] } := by
  obtain ⟨hbytes, conn, hc, hnode, hgeneration⟩ := h.datagrams d (List.mem_of_getElem? hd)
  obtain ⟨-, hs⟩ := Option.ite_none_right_eq_some.1 hs
  rw [hd] at hs
  obtain ⟨-, hs⟩ := Option.ite_none_left_eq_some.1 hs
  simp only [hbytes, hsub, hj, incoming, hc, Option.bind_eq_bind, Option.bind_some, Option.map_some, hopen,
    hroom, and_self, if_true] at hs
  cases hs
  rw [LaneSource.incoming, ← hnode, ← hgeneration]
  exact List.getElem?_set_self (List.getElem?_eq_some_iff.1 hj).1

/-- What holds between the lanes and the subscribers. -/
structure Delivered (s : LinkTraffic) : Prop where
  /-- A stream has handed over a beginning of what was sent on it. -/
  inOrder : ∀ pipe ∈ s.pipes, pipe.handed.map Prod.fst <+: pipe.sent
  /-- It ends with all of it, or was dropped; and no reader refuses what a lane has written. -/
  ends : ∀ pipe ∈ s.pipes, ∀ result, pipe.reader = .done result →
    pipe.writer = .finished ∧ result = .ok () ∧ pipe.handed.map Prod.fst = pipe.sent ∨
      pipe.writer = .dropped ∧ (result = .ok () ∨ result = .error .unexpectedEof)
  /-- A subscriber has from a stream what that has handed over to it, and knows whose it is. -/
  received : ∀ i j, s.received i j = s.handedTo i j
  /-- Once its protocol has a subscriber, a stream hands nothing to nobody, however the run goes on. -/
  heard : ∀ es s', Lts.exec step s es = some s' → ∀ (i : ℕ) (pipe' : WirePipe), s'.pipes[i]? = some pipe' →
    ∃ after, pipe'.handed = s.handed i ++ after ∧
      (s.subscribed pipe'.source.protocol ≠ none → ∀ h ∈ after, h.2 ≠ .nobody)
  /-- What is lost after that is lost with a subscriber. -/
  orphans : ∀ pipe ∈ s.pipes, ∃ before after, pipe.handed = before ++ after ∧
    (∀ h ∈ before, h.2 = .nobody) ∧ ∀ h ∈ after, ∃ j,
      h.2 = .inbox j ∧ s.HasInbox j pipe.source.protocol false ∨
        h.2 = .closed j ∧ s.HasInbox j pipe.source.protocol true
  /-- What comes as a datagram was sent as one, to this protocol, and comes once. -/
  datagrams : ∀ inbox ∈ s.inboxes, ∀ a ∈ inbox.log, ∀ k, a.origin = .datagram k →
    ∃ d, s.datagrams[k]? = some d ∧ d.source.protocol = inbox.protocol ∧
      a.incoming = d.source.incoming d.payload
  once : s.kept.Nodup
  /-- A datagram is taken up if its protocol has a subscriber, with room for it. -/
  takenUp : ∀ k s' d j inbox, s.recvDatagram k = some s' → s.datagrams[k]? = some d →
    s.subscribed d.source.protocol = some j → s.inboxes[j]? = some inbox → inbox.isClosed = false →
    inbox.hasRoom = true → s'.inboxes[j]? =
      some { inbox with log := inbox.log ++ [⟨.datagram k, d.source.incoming d.payload⟩] }

/-- Whatever the lanes, the connections, the readers and the subscribers do, and wherever connections and
writes fail. -/
theorem delivered_of_reachable (h : runs.Reachable s) : s.Delivered := by
  have hsound := sound_of_reachable h
  refine ⟨fun pipe hmem => (hsound.pipes pipe hmem).sound.handed_isPrefix, fun pipe hmem result hdone => ?_,
    hsound.log, fun es s' hs => (hears_of_exec hsound hs).handed, fun pipe hmem => ?_, hsound.arrived,
    hsound.once, fun _ _ _ _ _ => recvDatagram_of_hasRoom hsound⟩
  · obtain ⟨remaining, hsent, hreads⟩ := (hsound.pipes pipe hmem).sound.reads
    rw [hdone] at hreads
    rcases hreads with ⟨hwriter, hok, hnil⟩ | hdropped
    · refine .inl ⟨hwriter, hok, ?_⟩
      rw [hsent, hnil, List.append_nil, WirePipe.taken, hdone, List.append_nil]
    · exact .inr hdropped
  · obtain ⟨before, after, hhanded, hbefore, hafter⟩ := (hsound.pipes pipe hmem).sound.orphans
    refine ⟨before, after, hhanded, hbefore, fun a ha => ?_⟩
    have hmem' : a ∈ pipe.handed := hhanded ▸ List.mem_append_right before ha
    cases hover : a.2 with
    | inbox j => exact ⟨j, .inl ⟨rfl, (hsound.pipes pipe hmem).inbox a hmem' j hover⟩⟩
    | closed j => exact ⟨j, .inr ⟨rfl, (hsound.pipes pipe hmem).closed a hmem' j hover⟩⟩
    | nobody => exact absurd hover (hafter a ha)

/-- A message comes through, the next one is torn, and a third one comes as a datagram. -/
theorem delivered_of_reachable_torn : ∃ s, runs.Reachable s ∧
    (s.received 0 0 = [⟨"a", 1, [7]⟩] ∧ s.inboxes.map (fun inbox => inbox.log.length) = [2] ∧
      s.pipes.map (fun pipe => pipe.handed.length) = [1] ∧ s.pipes.map WirePipe.sent = [[[7], [8, 9]]]) ∧
    s.Delivered := by
  obtain ⟨s, hs, hp⟩ : ∃ s, runs.Reachable s ∧ _ :=
    Lts.exists_reachable_of_exec (f := step)
      (p := fun s : LinkTraffic => s.received 0 0 = [⟨"a", 1, [7]⟩] ∧
        s.inboxes.map (fun inbox => inbox.log.length) = [2] ∧
        s.pipes.map (fun pipe => pipe.handed.length) = [1] ∧ s.pipes.map WirePipe.sent = [[[7], [8, 9]]])
      (s := new) rfl
      [.connect "a" 1, .startLane ⟨"a", 1, 0⟩ .ordered, .subscribe 0, .send 0 [7] 0 (.ok ()) true, .write 0 6,
        .arrive 0 2, .read 0, .arrive 0 4, .read 0, .send 0 [8, 9] 0 (.ok ()) true, .write 0 3, .loseStream 0,
        .read 0, .arrive 0 3, .endArrives 0, .read 0, .startLane ⟨"a", 1, 0⟩ .datagram,
        .send 1 [5] 0 (.ok ()) true, .recvDatagram 0, .recv 0]
      (by decide +kernel)
  exact ⟨s, hs, hp, delivered_of_reachable hs⟩

end LinkTraffic

end Zestors
