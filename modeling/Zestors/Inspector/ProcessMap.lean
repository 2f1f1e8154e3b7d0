import Mathlib.Data.List.TakeWhile
import Zestors.Api.Processes
import Zestors.Channel.Snapshot
import Zestors.Lib.Unfold

/-!
# What the inspector shows

The inspector keeps what the listings of the API server said, the latest on each process, and draws as
trees what has been missing from them for no more than ten seconds. An entry is what the last listing
with its name said, and it is outdated since the first one after that; its snapshot is the last one that
came since it is there (`entry_of_run`). The drawing
ends unless visible entries form a cycle below a root. It is the forest of the visible entries that no
such lists (`tree_spec`).
-/

namespace Zestors.Inspector

open ApiServer (Process)

structure ProcessMapEntry where
  name : Name
  cfg : ChildConfig
  status : ActorStatus
  children : List Name
  snapshot : Option ChannelSnapshot
  outdatedSince : Option Instant

namespace ProcessMapEntry

def new (name : Name) (process : Process) : ProcessMapEntry :=
  ⟨name, process.cfg, process.status, process.children, none, none⟩

def update (entry : ProcessMapEntry) (process : Process) : ProcessMapEntry :=
  { entry with
    cfg := process.cfg
    status := process.status
    children := process.children
    outdatedSince := none }

/-- Ten seconds after it was outdated, an entry is not shown any more. -/
def isVisible (now : Instant) (entry : ProcessMapEntry) : Bool :=
  match entry.outdatedSince with
  | none => true
  | some since => now.durationSince since ≤ 10000000000

end ProcessMapEntry

abbrev ProcessMap := IndexMap Name ProcessMapEntry

abbrev ProcessTree := Rose ProcessMapEntry

namespace ProcessMap

def put (m : ProcessMap) (name : Name) (process : Process) : ProcessMap :=
  match m.get? name with
  | some entry => m.insert name (entry.update process)
  | none => m.insert name (.new name process)

/-- `clock` is read for each entry on its own. -/
def merge (m : ProcessMap) (clock : Name → Instant) (newMap : IndexMap Name Process) : ProcessMap :=
  newMap.entries.foldl (fun m e => m.put e.1 e.2) (m.mapWithKey fun name entry =>
    match newMap.get? name with
    | none => { entry with outdatedSince := some (entry.outdatedSince.getD (clock name)) }
    | some _ => { entry with outdatedSince := none })

def addSnapshot (m : ProcessMap) (snapshot : ChannelSnapshot) : ProcessMap :=
  match m.get? ⟨snapshot.name⟩ with
  | some entry => m.insert ⟨snapshot.name⟩ { entry with snapshot := some snapshot }
  | none => m

def addSnapshots (m : ProcessMap) (snapshots : List (Option ChannelSnapshot)) : ProcessMap :=
  snapshots.reduceOption.foldl addSnapshot m

/-- At most `fuel` levels deep; the code has no bound. -/
def buildTree (m : ProcessMap) (now : Instant) : ℕ → Name → Option (Option ProcessTree)
  | 0, _ => none
  | fuel + 1, name =>
    match m.get? name with
    | none => some none
    | some process =>
      if process.isVisible now then
        (Rose.forest (buildTree m now fuel) process.children).map fun children =>
          some (.node process children)
      else some none

def childNames (m : ProcessMap) (now : Instant) : List Name :=
  (m.values.filter fun entry => entry.isVisible now).flatMap ProcessMapEntry.children

/-- The visible entries that are no children of such. -/
def roots (m : ProcessMap) (now : Instant) : List Name :=
  (m.entries.filter fun e => e.2.isVisible now && !(childNames m now).contains e.1).map Prod.fst

def tree (m : ProcessMap) (now : Instant) (fuel : ℕ) : Option (List ProcessTree) :=
  Rose.forest (buildTree m now fuel) (roots m now)

end ProcessMap

/-- `clock` has what `merge` reads. An error comes as its text. -/
inductive ApiMessage
  | processesUpdate (clock : Name → Instant) (processes : Except String (IndexMap Name Process))
  | newChannelSnapshots (channelSnapshots : Except String (List (Option ChannelSnapshot)))

structure MyApp where
  map : ProcessMap
  errorMessage : Option String

namespace MyApp

def default : MyApp := ⟨.empty, none⟩

/-- One round of `handle_incoming_messages`. -/
def handle (app : MyApp) : ApiMessage → MyApp
  | .processesUpdate clock (.ok processes) => ⟨app.map.merge clock processes, none⟩
  | .processesUpdate _ (.error e) => { app with errorMessage := some ("Error updating processes: " ++ e) }
  | .newChannelSnapshots (.ok snapshots) => ⟨app.map.addSnapshots snapshots, none⟩
  | .newChannelSnapshots (.error e) =>
    { app with errorMessage := some ("Error updating channel snapshots: " ++ e) }

def run (msgs : List ApiMessage) : MyApp := msgs.foldl handle default

end MyApp

/-! ## What an entry says -/

namespace ProcessMap
variable {m : ProcessMap} {name : Name} {entry : ProcessMapEntry} {process : Process}
  {clock : Name → Instant} {newMap : IndexMap Name Process}

theorem get?_put (m : ProcessMap) (name : Name) (process : Process) (x : Name) :
    (m.put name process).get? x = if x = name then
      some (match m.get? name with
        | some entry => entry.update process
        | none => .new name process)
    else m.get? x := by
  unfold put
  cases m.get? name <;> rw [IndexMap.get?_insert]

theorem get?_foldl_put {l : List (Name × Process)} (hn : (l.map Prod.fst).Nodup) (m : ProcessMap) (x : Name) :
    (l.foldl (fun m e => m.put e.1 e.2) m).get? x =
      match IndexMap.Entries.get? x l with
      | none => m.get? x
      | some process => some (match m.get? x with
        | some entry => entry.update process
        | none => .new x process) := by
  induction l generalizing m with
  | nil => rfl
  | cons e l ih =>
    obtain ⟨hnot, hn⟩ := List.nodup_cons.1 hn
    rw [List.foldl_cons, ih hn, IndexMap.Entries.get?, get?_put]
    by_cases hx : e.1 = x
    · subst hx
      rw [if_pos rfl, if_pos rfl, IndexMap.Entries.get?_eq_none.2 hnot]
    · rw [if_neg hx, if_neg (Ne.symm hx)]

theorem get?_merge_of_some (m : ProcessMap) (clock : Name → Instant) (h : newMap.get? name = some process) :
    ∃ entry, (m.merge clock newMap).get? name = some entry ∧ entry.outdatedSince = none ∧
      (entry.cfg = process.cfg ∧ entry.status = process.status ∧ entry.children = process.children) ∧
      (∀ before, m.get? name = some before → entry.name = before.name ∧ entry.snapshot = before.snapshot) ∧
      (m.get? name = none → entry.name = name ∧ entry.snapshot = none) := by
  have hget : (m.merge clock newMap).get? name = _ := get?_foldl_put newMap.nodup _ name
  have hlisted : IndexMap.Entries.get? name newMap.entries = some process := h
  rw [hlisted, IndexMap.get?_mapWithKey] at hget
  cases hm : m.get? name with
  | none =>
    rw [hm] at hget
    exact ⟨_, hget, rfl, ⟨rfl, rfl, rfl⟩, fun _ heq => (Option.some_ne_none _ heq.symm).elim,
      fun _ => ⟨rfl, rfl⟩⟩
  | some before =>
    rw [hm] at hget
    simp only [Option.map_some, h] at hget
    refine ⟨_, hget, rfl, ⟨rfl, rfl, rfl⟩, fun before' heq => ?_,
      fun heq => (Option.some_ne_none _ heq).elim⟩
    cases heq
    exact ⟨rfl, rfl⟩

/-- What the listing does not have is outdated, since now or before. -/
theorem get?_merge_of_none (h : newMap.get? name = none) :
    (m.merge clock newMap).get? name = (m.get? name).map fun entry =>
      { entry with outdatedSince := some (entry.outdatedSince.getD (clock name)) } := by
  have hget : (m.merge clock newMap).get? name = _ := get?_foldl_put newMap.nodup _ name
  have hlisted : IndexMap.Entries.get? name newMap.entries = none := h
  rw [hlisted, IndexMap.get?_mapWithKey] at hget
  rw [hget]
  cases m.get? name with
  | none => rfl
  | some entry => simp only [Option.map_some, h]

theorem get?_addSnapshot (m : ProcessMap) (snapshot : ChannelSnapshot) (name : Name) :
    (m.addSnapshot snapshot).get? name = (m.get? name).map fun entry =>
      if name = ⟨snapshot.name⟩ then { entry with snapshot := some snapshot } else entry := by
  unfold addSnapshot
  by_cases hname : name = ⟨snapshot.name⟩
  · simp only [hname, if_true]
    cases hm : m.get? ⟨snapshot.name⟩ with
    | none => rw [hm]; rfl
    | some entry => rw [IndexMap.get?_insert, if_pos rfl]; rfl
  · simp only [if_neg hname]
    rw [show (m.get? name).map (fun entry => entry) = m.get? name from Option.map_id']
    cases m.get? ⟨snapshot.name⟩ with
    | none => rfl
    | some entry => rw [IndexMap.get?_insert, if_neg hname]

/-- The last snapshot with its name is kept; nothing else of an entry changes. -/
theorem get?_addSnapshots (snapshots : List (Option ChannelSnapshot)) (name : Name) :
    (m.addSnapshots snapshots).get? name = (m.get? name).map fun entry =>
      { entry with
        snapshot := (snapshots.reduceOption.filter fun snapshot => name = ⟨snapshot.name⟩).getLast?.or
          entry.snapshot } := by
  unfold addSnapshots
  induction snapshots.reduceOption generalizing m with
  | nil => exact (Option.map_id').symm
  | cons snapshot rest ih =>
    rw [List.foldl_cons, ih, get?_addSnapshot, Option.map_map]
    refine congrArg (Option.map · (m.get? name)) (funext fun entry => ?_)
    by_cases hname : name = ⟨snapshot.name⟩
    · simp only [Function.comp_apply, List.filter_cons, hname, decide_true, if_true,
        List.getLast?_cons]
      cases (rest.filter fun snapshot' => decide ((⟨snapshot.name⟩ : Name) = ⟨snapshot'.name⟩)).getLast? <;> rfl
    · simp only [Function.comp_apply, List.filter_cons, hname, decide_false, Bool.false_eq_true,
        if_false]

end ProcessMap

namespace ApiMessage

/-- When a listing was merged, as far as `name` is concerned. -/
def mergedAt (name : Name) : ApiMessage → Option Instant
  | processesUpdate clock (.ok _) => some (clock name)
  | _ => none

/-- What a listing says of a process. -/
def listed (name : Name) : ApiMessage → Option Process
  | processesUpdate _ (.ok processes) => processes.get? name
  | _ => none

def snapshots (name : Name) : ApiMessage → List ChannelSnapshot
  | newChannelSnapshots (.ok snapshots) => snapshots.reduceOption.filter fun snapshot => name = ⟨snapshot.name⟩
  | _ => []

end ApiMessage

namespace MyApp

theorem run_concat (msgs : List ApiMessage) (msg : ApiMessage) :
    run (msgs ++ [msg]) = (run msgs).handle msg := by
  rw [run, List.foldl_append, List.foldl_cons, List.foldl_nil, run]

/-- The messages from the first listing on that has the name: before, there was no entry. -/
def sinceListed (name : Name) (msgs : List ApiMessage) : List ApiMessage :=
  msgs.dropWhile fun msg => (msg.listed name).isNone

/-- What an entry is made of. -/
structure Says (msgs : List ApiMessage) (name : Name) (entry : ProcessMapEntry) : Prop where
  named : entry.name = name
  /-- It has what the last listing with its name said, and is outdated since the first one after that. -/
  listed : ∃ before msg after process, msgs = before ++ msg :: after ∧
    msg.listed name = some process ∧ (∀ msg ∈ after, msg.listed name = none) ∧
    (entry.cfg = process.cfg ∧ entry.status = process.status ∧ entry.children = process.children) ∧
    entry.outdatedSince = after.findSome? (ApiMessage.mergedAt name)
  /-- Its snapshot is the last one that came for it since there is an entry. -/
  snapshot : entry.snapshot = ((sinceListed name msgs).flatMap (ApiMessage.snapshots name)).getLast?

section Says
variable {msgs : List ApiMessage} {msg : ApiMessage} {name : Name} {entry entry' : ProcessMapEntry}

theorem sinceListed_concat (h : ∃ msg ∈ msgs, msg.listed name ≠ none) (msg : ApiMessage) :
    sinceListed name (msgs ++ [msg]) = sinceListed name msgs ++ [msg] := by
  unfold sinceListed
  rw [List.dropWhile_append, if_neg]
  intro hempty
  obtain ⟨msg', hmem, hlisted⟩ := h
  have hall := List.dropWhile_eq_nil_iff.1 (List.isEmpty_iff.1 hempty) msg' hmem
  exact hlisted (Option.isNone_iff_eq_none.1 hall)

theorem sinceListed_of_new (h : ∀ msg ∈ msgs, msg.listed name = none) (hmsg : msg.listed name ≠ none) :
    sinceListed name (msgs ++ [msg]) = [msg] := by
  unfold sinceListed
  rw [List.dropWhile_append_of_pos fun msg' hmem => Option.isNone_iff_eq_none.2 (h msg' hmem)]
  exact List.dropWhile_cons_of_neg fun hnone => hmsg (Option.isNone_iff_eq_none.1 hnone)

theorem Says.exists_listed (h : Says msgs name entry) : ∃ msg ∈ msgs, msg.listed name ≠ none := by
  obtain ⟨before, msg, after, process, rfl, hmsg, -⟩ := h.listed
  exact ⟨msg, by simp, by rw [hmsg]; exact Option.some_ne_none process⟩

theorem Says.snapshot_concat (h : Says msgs name entry)
    (hsnapshot : entry'.snapshot = (msg.snapshots name).getLast?.or entry.snapshot) : entry'.snapshot =
      ((sinceListed name (msgs ++ [msg])).flatMap (ApiMessage.snapshots name)).getLast? := by
  rw [sinceListed_concat h.exists_listed, List.flatMap_append, List.getLast?_append, ← h.snapshot,
    List.flatMap_singleton, hsnapshot]

/-- After a message without the name, the entry is as before up to what the message has brought. -/
theorem Says.keep (h : Says msgs name entry) (hlisted : msg.listed name = none)
    (hname : entry'.name = entry.name)
    (hsame : entry'.cfg = entry.cfg ∧ entry'.status = entry.status ∧ entry'.children = entry.children)
    (hsince : entry'.outdatedSince = entry.outdatedSince.or (msg.mergedAt name))
    (hsnapshot : entry'.snapshot = (msg.snapshots name).getLast?.or entry.snapshot) :
    Says (msgs ++ [msg]) name entry' := by
  refine ⟨hname.trans h.named, ?_, h.snapshot_concat hsnapshot⟩
  obtain ⟨before, msg', after, process, rfl, hmsg', hafter, ⟨hcfg, hstatus, hchildren⟩, hold⟩ := h.listed
  refine ⟨before, msg', after ++ [msg], process, by simp, hmsg', ?_,
    ⟨hsame.1.trans hcfg, hsame.2.1.trans hstatus, hsame.2.2.trans hchildren⟩, ?_⟩
  · exact List.forall_mem_append.2 ⟨hafter, List.forall_mem_singleton.2 hlisted⟩
  · rw [hsince, hold, List.findSome?_append, List.findSome?_singleton]

theorem says_of_listed {process : Process} (hlisted : msg.listed name = some process) (hname : entry.name = name)
    (hsame : entry.cfg = process.cfg ∧ entry.status = process.status ∧ entry.children = process.children)
    (hsince : entry.outdatedSince = none) (hsnapshot : entry.snapshot =
      ((sinceListed name (msgs ++ [msg])).flatMap (ApiMessage.snapshots name)).getLast?) :
    Says (msgs ++ [msg]) name entry :=
  ⟨hname, ⟨msgs, msg, [], process, rfl, hlisted, List.forall_mem_nil _, hsame, hsince⟩, hsnapshot⟩

/-- What the map has under a name: an entry if and only if some listing had the name. -/
structure Found (msgs : List ApiMessage) (name : Name) (found : Option ProcessMapEntry) : Prop where
  none_iff : found = none ↔ ∀ msg ∈ msgs, msg.listed name = none
  made : ∀ entry, found = some entry → Says msgs name entry

variable {found : Option ProcessMapEntry} {m : ProcessMap}

theorem Found.keep {f : ProcessMapEntry → ProcessMapEntry} (h : Found msgs name found)
    (hlisted : msg.listed name = none)
    (hf : ∀ entry, Says msgs name entry → Says (msgs ++ [msg]) name (f entry)) :
    Found (msgs ++ [msg]) name (found.map f) := by
  constructor
  · rw [Option.map_eq_none_iff, h.none_iff, List.forall_mem_append, List.forall_mem_singleton, hlisted,
      and_iff_left rfl]
  · intro entry hentry
    obtain ⟨old, hold, rfl⟩ := Option.map_eq_some_iff.1 hentry
    exact hf old (h.made old hold)

/-- The message failed: it changes nothing. -/
theorem Found.ignore (h : Found msgs name found) (hlisted : msg.listed name = none)
    (hmerged : msg.mergedAt name = none) (hsnapshots : msg.snapshots name = []) :
    Found (msgs ++ [msg]) name found := by
  have hkeep : Found (msgs ++ [msg]) name (found.map id) := by
    refine h.keep hlisted fun entry hsays => hsays.keep hlisted rfl ⟨rfl, rfl, rfl⟩ ?_ ?_
    · rw [hmerged, Option.or_none, id]
    · rw [hsnapshots]
      rfl
  rwa [Option.map_id, id] at hkeep

theorem Found.merge (h : Found msgs name (m.get? name)) (clock : Name → Instant)
    (processes : IndexMap Name Process) :
    Found (msgs ++ [.processesUpdate clock (.ok processes)]) name ((m.merge clock processes).get? name) := by
  cases hget : processes.get? name with
  | none =>
    rw [ProcessMap.get?_merge_of_none hget]
    refine h.keep hget fun entry hsays => hsays.keep hget rfl ⟨rfl, rfl, rfl⟩ ?_ rfl
    cases entry.outdatedSince <;> rfl
  | some process =>
    have hlisted : ApiMessage.listed name (.processesUpdate clock (.ok processes)) = some process := hget
    have hne : ApiMessage.listed name (.processesUpdate clock (.ok processes)) ≠ none := by
      rw [hlisted]
      exact Option.some_ne_none process
    obtain ⟨entry, hentry, hsince, hsame, hbefore, hnew⟩ := ProcessMap.get?_merge_of_some m clock hget
    rw [hentry]
    constructor
    · refine iff_of_false (Option.some_ne_none entry) fun hall => hne ?_
      exact hall _ (List.mem_append_right msgs (List.mem_singleton_self _))
    · rintro _ ⟨⟩
      cases hold : m.get? name with
      | none =>
        obtain ⟨hname, hsnapshot⟩ := hnew hold
        refine says_of_listed hlisted hname hsame hsince ?_
        rw [sinceListed_of_new (h.none_iff.1 hold) hne, hsnapshot]
        rfl
      | some old =>
        obtain ⟨hname, hsnapshot⟩ := hbefore old hold
        have hprev := h.made old hold
        exact says_of_listed hlisted (hname.trans hprev.named) hsame hsince (hprev.snapshot_concat hsnapshot)

theorem Found.addSnapshots (h : Found msgs name (m.get? name)) (snapshots : List (Option ChannelSnapshot)) :
    Found (msgs ++ [.newChannelSnapshots (.ok snapshots)]) name ((m.addSnapshots snapshots).get? name) := by
  rw [ProcessMap.get?_addSnapshots]
  exact h.keep rfl fun entry hsays => hsays.keep rfl rfl ⟨rfl, rfl, rfl⟩ Option.or_none.symm rfl

end Says

theorem found_of_run (msgs : List ApiMessage) (name : Name) : Found msgs name ((run msgs).map.get? name) := by
  induction msgs using List.reverseRecOn with
  | nil => exact ⟨iff_of_true rfl (List.forall_mem_nil _), fun entry hentry => by cases hentry⟩
  | append_singleton msgs msg ih =>
    rw [run_concat]
    cases msg with
    | processesUpdate clock processes =>
      cases processes with
      | error e => exact ih.ignore rfl rfl rfl
      | ok processes => exact ih.merge clock processes
    | newChannelSnapshots snapshots =>
      cases snapshots with
      | error e => exact ih.ignore rfl rfl rfl
      | ok snapshots => exact ih.addSnapshots snapshots

/-- Whatever messages there were: a name has an entry if and only if a listing had it. The entry is what
the last such listing said, outdated since the first listing after that, with the last snapshot since. -/
theorem entry_of_run (msgs : List ApiMessage) (name : Name) :
    ((run msgs).map.get? name = none ↔ ∀ msg ∈ msgs, msg.listed name = none) ∧
    ∀ entry, (run msgs).map.get? name = some entry → Says msgs name entry := by
  have hfound := found_of_run msgs name
  exact ⟨hfound.none_iff, hfound.made⟩

end MyApp

/-! ## What is drawn -/

namespace ProcessMap
variable {m : ProcessMap} {now : Instant} {fuel : ℕ} {name : Name} {entry : ProcessMapEntry}
  {ts : List ProcessTree}

/-- The visible entry of a name, and the names below it. -/
def look (m : ProcessMap) (now : Instant) (name : Name) : Option (ProcessMapEntry × List Name) :=
  match m.get? name with
  | none => none
  | some process => if process.isVisible now then some (process, process.children) else none

theorem look_eq_some {children : List Name} : m.look now name = some (entry, children) ↔
    m.get? name = some entry ∧ entry.isVisible now = true ∧ entry.children = children := by
  unfold look
  cases m.get? name with
  | none => simp
  | some process =>
    simp only [Option.ite_none_right_eq_some, Option.some.injEq, Prod.mk.injEq]
    constructor
    · rintro ⟨hvisible, rfl, rfl⟩
      exact ⟨rfl, hvisible, rfl⟩
    · rintro ⟨rfl, hvisible, rfl⟩
      exact ⟨hvisible, rfl, rfl⟩

theorem buildTree_eq_unfold (m : ProcessMap) (now : Instant) (fuel : ℕ) :
    m.buildTree now fuel = Rose.unfold (m.look now) fuel := by
  induction fuel with
  | zero => rfl
  | succ fuel ih =>
    funext name
    rw [buildTree, Rose.unfold, look, ih]
    cases m.get? name with
    | none => rfl
    | some process =>
      dsimp only
      cases process.isVisible now <;> rfl

theorem mem_keys_of_look (h : (m.look now name).isSome = true) : name ∈ m.keys.toFinset := by
  obtain ⟨⟨entry, children⟩, h⟩ := Option.isSome_iff_exists.1 h
  rw [List.mem_toFinset, IndexMap.mem_keys, (look_eq_some.1 h).1]
  rfl

/-- What has a visible entry that lists it is not a root. -/
theorem mem_roots : name ∈ roots m now ↔
    (m.look now name).isSome = true ∧ Rose.NoParent (m.look now) name := by
  have hchild : (childNames m now).contains name = true ↔
      ∃ p entry, m.look now p = some (entry, entry.children) ∧ name ∈ entry.children := by
    rw [List.contains_iff_mem, childNames, List.mem_flatMap]
    constructor
    · rintro ⟨entry, hentry, hname⟩
      obtain ⟨hmem, hvisible⟩ := List.mem_filter.1 hentry
      obtain ⟨⟨p, entry⟩, he, rfl⟩ := List.mem_map.1 hmem
      exact ⟨p, entry, look_eq_some.2 ⟨IndexMap.mem_entries.1 he, hvisible, rfl⟩, hname⟩
    · rintro ⟨p, entry, hlook, hname⟩
      obtain ⟨hget, hvisible, -⟩ := look_eq_some.1 hlook
      refine ⟨entry, List.mem_filter.2 ⟨?_, hvisible⟩, hname⟩
      exact List.mem_map.2 ⟨(p, entry), IndexMap.mem_entries.2 hget, rfl⟩
  rw [roots, List.mem_map]
  constructor
  · rintro ⟨⟨x, entry⟩, he, rfl⟩
    obtain ⟨hmem, hfilter⟩ := List.mem_filter.1 he
    simp only [Bool.and_eq_true, Bool.not_eq_true'] at hfilter
    have hlook : m.look now x = some (entry, entry.children) :=
      look_eq_some.2 ⟨IndexMap.mem_entries.1 hmem, hfilter.1, rfl⟩
    refine ⟨by rw [hlook]; rfl, ?_⟩
    rintro p ⟨entry', children, hp, hx, -⟩
    obtain ⟨-, -, rfl⟩ := look_eq_some.1 hp
    rw [hchild.2 ⟨p, entry', hp, hx⟩] at hfilter
    exact absurd hfilter.2 (by simp)
  · rintro ⟨hsome, hroot⟩
    obtain ⟨⟨entry, children⟩, hlook⟩ := Option.isSome_iff_exists.1 hsome
    obtain ⟨hget, hvisible, -⟩ := look_eq_some.1 hlook
    refine ⟨(name, entry), List.mem_filter.2 ⟨IndexMap.mem_entries.2 hget, ?_⟩, rfl⟩
    simp only [hvisible, Bool.true_and, Bool.not_eq_true']
    refine Bool.eq_false_iff.2 fun hcontains => ?_
    obtain ⟨p, entry', hp, hname⟩ := hchild.1 hcontains
    exact hroot p ⟨entry', entry'.children, hp, hname, hsome⟩

theorem nodup_roots (m : ProcessMap) (now : Instant) : (roots m now).Nodup :=
  m.nodup.sublist (List.filter_sublist.map _)

/-- Below a name that is not visible, there is nothing else. -/
theorem isSome_of_below {r : Name} (h : Rose.Below (m.look now) r name)
    (hname : (m.look now name).isSome = true) : (m.look now r).isSome = true := by
  rcases Relation.ReflTransGen.cases_head h with rfl | ⟨c, ⟨entry, children, hr, -⟩, -⟩
  · exact hname
  · rw [hr]
    rfl

theorem mem_labels_of_tree (h : m.tree now fuel = some ts) : entry ∈ ts.flatMap Rose.labels ↔
    ∃ name, m.look now name = some (entry, entry.children) ∧
      ∃ r, Rose.NoParent (m.look now) r ∧ Rose.Below (m.look now) r name := by
  rw [tree, buildTree_eq_unfold] at h
  rw [List.mem_flatMap]
  constructor
  · rintro ⟨t, ht, hentry⟩
    obtain ⟨r, hr, hrt⟩ := (Rose.mem_forest_iff h).1 ht
    obtain ⟨name, children, hbelow, hlook⟩ := (Rose.mem_labels_iff hrt).1 hentry
    obtain ⟨-, -, rfl⟩ := look_eq_some.1 hlook
    exact ⟨name, hlook, r, (mem_roots.1 hr).2, hbelow⟩
  · rintro ⟨name, hlook, r, hroot, hbelow⟩
    have hsome := isSome_of_below hbelow (by rw [hlook]; rfl)
    obtain ⟨result, hresult⟩ := Rose.exists_forest_iff.1 ⟨ts, h⟩ r (mem_roots.2 ⟨hsome, hroot⟩)
    obtain ⟨t, rfl⟩ := Rose.exists_tree_of_unfold hresult hsome
    exact ⟨t, (Rose.mem_forest_iff h).2 ⟨r, mem_roots.2 ⟨hsome, hroot⟩, hresult⟩,
      (Rose.mem_labels_iff hresult).2 ⟨name, _, hbelow, hlook⟩⟩

/-- The drawing ends if and only if no visible entries form a cycle below a root. -/
theorem exists_tree_iff : (∃ fuel ts, m.tree now fuel = some ts) ↔
    ∀ r c, Rose.NoParent (m.look now) r → Rose.Below (m.look now) r c → ¬ Rose.OnCycle (m.look now) c := by
  constructor
  · rintro ⟨fuel, ts, h⟩ r c hroot hbelow hcycle
    have hsome : (m.look now c).isSome = true := by
      obtain ⟨d, ⟨entry, children, hc, -⟩, -⟩ := Relation.TransGen.head'_iff.1 hcycle
      rw [hc]
      rfl
    rw [tree, buildTree_eq_unfold] at h
    obtain ⟨result, hresult⟩ := Rose.exists_forest_iff.1 ⟨ts, h⟩ r
      (mem_roots.2 ⟨isSome_of_below hbelow hsome, hroot⟩)
    exact Rose.not_onCycle_of_acc (Rose.acc_of_unfold hresult) hbelow hcycle
  · intro h
    have hroots : ∀ r ∈ roots m now, ∃ fuel result, Rose.unfold (m.look now) fuel r = some result :=
      fun r hr => (Rose.exists_unfold_iff fun _ => mem_keys_of_look).2 fun c hc =>
        h r c (mem_roots.1 hr).2 hc
    obtain ⟨fuel, hfuel⟩ := Rose.exists_fuel hroots
    obtain ⟨ts, hts⟩ := Rose.exists_forest_iff.2 hfuel
    refine ⟨fuel, ts, ?_⟩
    rw [tree, buildTree_eq_unfold]
    exact hts

end ProcessMap

namespace MyApp
variable {msgs : List ApiMessage} {now : Instant} {fuel : ℕ} {ts : List ProcessTree}

theorem name_of_get? {name : Name} {entry : ProcessMapEntry} (h : (run msgs).map.get? name = some entry) :
    entry.name = name := by
  induction msgs using List.reverseRecOn generalizing entry with
  | nil => cases h
  | append_singleton msgs msg ih =>
    rw [run_concat] at h
    cases msg with
    | processesUpdate clock processes =>
      cases processes with
      | error e => exact ih h
      | ok processes =>
        have h : ((run msgs).map.merge clock processes).get? name = some entry := h
        cases hlisted : processes.get? name with
        | none =>
          rw [ProcessMap.get?_merge_of_none hlisted] at h
          obtain ⟨old, hold, rfl⟩ := Option.map_eq_some_iff.1 h
          have hname : old.name = name := ih hold
          exact hname
        | some process =>
          obtain ⟨entry', hget, -, -, hbefore, hnew⟩ :=
            ProcessMap.get?_merge_of_some (run msgs).map clock hlisted
          rw [hget] at h
          cases h
          cases hold : (run msgs).map.get? name with
          | none => exact (hnew hold).1
          | some old => exact (hbefore old hold).1.trans (ih hold)
    | newChannelSnapshots snapshots =>
      cases snapshots with
      | error e => exact ih h
      | ok snapshots =>
        have h : ((run msgs).map.addSnapshots snapshots).get? name = some entry := h
        rw [ProcessMap.get?_addSnapshots] at h
        obtain ⟨old, hold, rfl⟩ := Option.map_eq_some_iff.1 h
        have hname : old.name = name := ih hold
        exact hname

/-- The visible entries after these messages, and the names below each. -/
def shown (msgs : List ApiMessage) (now : Instant) : Name → Option (ProcessMapEntry × List Name) :=
  (run msgs).map.look now

theorem name_of_shown {name : Name} {entry : ProcessMapEntry} {children : List Name}
    (h : shown msgs now name = some (entry, children)) : entry.name = name :=
  name_of_get? (ProcessMap.look_eq_some.1 h).1

/-- The forest of the visible entries, the names of which are in the order of the map. -/
structure Forest (msgs : List ApiMessage) (now : Instant) (ts : List ProcessTree) : Prop where
  /-- On top are the visible entries that no visible entry lists. -/
  roots : ∀ name, name ∈ ts.map (fun t => t.label.name) ↔
    (shown msgs now name).isSome = true ∧ Rose.NoParent (shown msgs now) name
  inOrder : (ts.map fun t => t.label.name).Sublist (run msgs).map.keys
  /-- Below each entry are the visible ones that it lists. -/
  below : ∀ t ∈ ts, t.All fun s =>
    ((run msgs).map.get? s.label.name = some s.label ∧ s.label.isVisible now = true) ∧
      s.children.map (fun c => c.label.name) = s.label.children.filter fun c => (shown msgs now c).isSome

theorem forest_of_tree (h : (run msgs).map.tree now fuel = some ts) : Forest msgs now ts := by
  rw [ProcessMap.tree, ProcessMap.buildTree_eq_unfold] at h
  have hkey : ∀ name entry next, (run msgs).map.look now name = some (entry, next) → entry.name = name :=
    fun _ _ _ => name_of_shown
  have hroots : ts.map (fun t => t.label.name) = (run msgs).map.roots now := by
    rw [Rose.keys_of_forest hkey h, List.filter_eq_self]
    exact fun r hr => (ProcessMap.mem_roots.1 hr).1
  refine ⟨fun name => ?_, ?_, fun t ht p s hs => ?_⟩
  · rw [hroots]
    exact ProcessMap.mem_roots
  · rw [hroots]
    exact List.filter_sublist.map Prod.fst
  · obtain ⟨r, -, hr⟩ := (Rose.mem_forest_iff h).1 ht
    obtain ⟨next, hlook, hchildren⟩ := Rose.all_of_unfold hkey hr p s hs
    obtain ⟨hget, hvisible, rfl⟩ := ProcessMap.look_eq_some.1 hlook
    exact ⟨⟨hget, hvisible⟩, hchildren⟩

/-- Whatever messages there were and whenever the inspector draws: the drawing ends if and only if the
visible entries form no cycle below one that is nobody's child. When it ends, it is the forest of those
that are nobody's child: it shows the visible entries that are below such a one, and each of them once if
none has two parents. If there is no cycle at all, it shows all that is visible. -/
theorem tree_spec (msgs : List ApiMessage) (now : Instant) :
    ((∃ fuel ts, (run msgs).map.tree now fuel = some ts) ↔ ∀ r c, Rose.NoParent (shown msgs now) r →
      Rose.Below (shown msgs now) r c → ¬ Rose.OnCycle (shown msgs now) c) ∧
    (∀ fuel ts, (run msgs).map.tree now fuel = some ts → Forest msgs now ts ∧
      (∀ entry, entry ∈ ts.flatMap Rose.labels ↔
        ((run msgs).map.get? entry.name = some entry ∧ entry.isVisible now = true) ∧
          ∃ r, Rose.NoParent (shown msgs now) r ∧ Rose.Below (shown msgs now) r entry.name) ∧
      (Rose.Tame (shown msgs now) → ((ts.flatMap Rose.labels).map ProcessMapEntry.name).Nodup)) ∧
    ((∀ c, ¬ Rose.OnCycle (shown msgs now) c) → ∃ fuel ts, (run msgs).map.tree now fuel = some ts ∧
      ∀ name entry, (run msgs).map.get? name = some entry → entry.isVisible now = true →
        entry ∈ ts.flatMap Rose.labels) := by
  refine ⟨ProcessMap.exists_tree_iff, fun fuel ts h => ⟨forest_of_tree h, fun entry => ?_, fun ht => ?_⟩,
    fun hacyclic => ?_⟩
  · rw [ProcessMap.mem_labels_of_tree h]
    constructor
    · rintro ⟨name, hlook, hbelow⟩
      obtain rfl := name_of_shown hlook
      obtain ⟨hget, hvisible, -⟩ := ProcessMap.look_eq_some.1 hlook
      exact ⟨⟨hget, hvisible⟩, hbelow⟩
    · rintro ⟨⟨hget, hvisible⟩, hbelow⟩
      exact ⟨entry.name, ProcessMap.look_eq_some.2 ⟨hget, hvisible, rfl⟩, hbelow⟩
  · rw [ProcessMap.tree, ProcessMap.buildTree_eq_unfold] at h
    exact Rose.nodup_roots (fun _ _ _ hlook => name_of_shown hlook) ht h (ProcessMap.nodup_roots _ now)
      fun r hr => (ProcessMap.mem_roots.1 hr).2
  · obtain ⟨fuel, ts, h⟩ := ProcessMap.exists_tree_iff.2 fun r c _ _ => hacyclic c
    refine ⟨fuel, ts, h, fun name entry hget hvisible => ?_⟩
    have hlook : (run msgs).map.look now name = some (entry, entry.children) :=
      ProcessMap.look_eq_some.2 ⟨hget, hvisible, rfl⟩
    exact (ProcessMap.mem_labels_of_tree h).2 ⟨name, hlook,
      Rose.exists_noParent (fun _ => ProcessMap.mem_keys_of_look) fun p _ => hacyclic p⟩

end MyApp

end Zestors.Inspector
