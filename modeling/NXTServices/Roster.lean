import NXTServices.Lib.Replica
import NXTServices.Members
import Mathlib.Data.List.Find
import Mathlib.Data.List.Pairwise
import Mathlib.Data.List.TakeWhile

/-!
# The rosters of the punch clients: `NXTsync/punch.c` with `NXTsync/NXTmembers.h`

* `Notice`, `Notice.print` : a line about a client that comes or goes, as `print_member` writes it;
* `Session` : the server, and what it has sent to each connected client about its group;
* `notify`, `listing`, `step` : `notify_group_members`, `list`, and the server with its notices;
* `Holds` : a member list as a map from names to states;
* `holds_foldl` : the lines of the server are updates of that map;
* `Informed` : what a client was told does not contradict its group;
* `roster_agrees` : **a client that has asked for the list knows its group**, whatever it missed before.
-/

namespace NXTServices.Roster
open Links (IsList)
open Punch (Client Server Surroundings Message nameOk nameSize nxtAddrSize statusSize stgsep message)
open Members (Line MemberList memberName stgncpy tcpIo noMembers names processLine traffic isBreak)
open Replica (Update play Follows Covers IsCopy)

/-! ## What is sent -/

/-- A client joins or leaves; `location` is the address, the port and the key that are printed behind its status. -/
structure Notice where
  joined : Bool
  pc : Client
  location : Text

/-- The line without its sign and its end. -/
def memberText (pc : Client) (location : Text) : Text :=
  pc.user ++ ' ' :: (pc.nxtAddr ++ ' ' :: '[' :: (pc.status ++ ']' :: ' ' :: location))

/-- `print_member`. -/
def Notice.print (n : Notice) : Text := (if n.joined then '+' else '-') :: (memberText n.pc n.location ++ ['\n'])

/-- What a client was sent: before the first list of its group, and from that list on. -/
structure Inbox where
  early : List (List Notice) := []
  late : Option (List (List Notice)) := none

def Inbox.add (b : Inbox) (msg : List Notice) : Inbox :=
  match b.late with
  | none => { b with early := b.early ++ [msg] }
  | some late => { b with late := some (late ++ [msg]) }

def Inbox.addList (b : Inbox) (msg : List Notice) : Inbox := { b with late := some (b.late.getD [] ++ [msg]) }

/-- The notices, one after the other. -/
def Inbox.all (b : Inbox) : List Notice := (b.early ++ b.late.getD []).flatten

/-- The answers to a client's own messages are left out: they do not start with a sign, and leave its list alone. -/
structure Session where
  server : Server := {}
  inbox : Int → Inbox := fun _ => {}

/-- The socket is that of a client in the group of `pc`; unless `all`, not of `pc` itself. -/
def hears (clients : List Client) (pc : Client) (all : Bool) (sock : Int) : Bool :=
  clients.any fun cl => cl.sock = sock ∧ cl.group = pc.group ∧ (all ∨ cl.sock ≠ pc.sock)

/-- `notify_group_members`, with the clients of `s`. Each socket is that of one client. -/
def notify (locate : Client → Text) (s : Server) (inbox : Int → Inbox) (sock : Int) (joined all : Bool) : Int → Inbox :=
  match s.findBySocket sock with
  | none => inbox
  | some pc => fun k =>
    if hears s.clients pc all k then (inbox k).add [{ joined := joined, pc := pc, location := locate pc }] else inbox k

/-- `list`. -/
def listing (locate : Client → Text) (clients : List Client) (pg : Nat) : List Notice :=
  (clients.filter fun pc => pc.group = some pg ∧ pc.user ≠ []).map fun pc =>
    { joined := true, pc := pc, location := locate pc }

/-- The notices of a message, `s` being the server afterwards. -/
def Session.sent (ro : Session) (locate : Client → Text) (s : Server) (sock : Int) (read : Option Text)
    (env : Surroundings) : Int → Inbox :=
  match ro.server.findBySocket sock, read with
  | some pc, some buf =>
    match message buf with
    | .status _ => notify locate s ro.inbox sock true true
    | .list =>
      match pc.group with
      | some pg =>
        if env.sent then
          Function.update ro.inbox sock ((ro.inbox sock).addList (listing locate ro.server.clients pg))
        else ro.inbox
      | none => ro.inbox
    | .intro i =>
      if pc.user = [] ∧ nameOk i.user ∧ nameOk i.group ∧ env.sent then notify locate s ro.inbox sock true false
      else ro.inbox
    | _ => ro.inbox
  | _, _ => ro.inbox

/-- `servclose_connection`. -/
def Session.closeConnection (ro : Session) (locate : Client → Text) (sock : Int) : Option Session :=
  (ro.server.closeConnection sock).map fun s =>
    { server := s, inbox := notify locate ro.server ro.inbox sock false false }

/-- What happens at the server, and what it prints behind the status of a client. -/
structure Event where
  event : Punch.Event
  locate : Client → Text := fun _ => []
  locate_ok : ∀ c, ∀ ch ∈ locate c, !isBreak ch := by simp

def step (ro : Session) (e : Event) : Option Session :=
  match e.event with
  | .connect sock id =>
    some { server := ro.server.clientCreate sock id, inbox := Function.update ro.inbox sock {} }
  | .traffic sock read env =>
    (ro.server.receiveTcpTraffic sock read env).bind fun (s, goesOn) =>
      let ro : Session := { server := s, inbox := ro.sent e.locate s sock read env }
      if goesOn then some ro else ro.closeConnection e.locate sock
  | .udp id user group tag dir => (ro.server.receiveUdpPunch id user group tag dir).map fun s => { ro with server := s }

/-- The notices do not change what the server does. -/
theorem step_server (ro : Session) (e : Event) : (step ro e).map Session.server = Punch.step ro.server e.event := by
  unfold step
  cases e.event with
  | connect sock id => rfl
  | traffic sock read env =>
    show Option.map _ (Option.bind _ _) = Option.bind _ _
    rw [Option.map_bind]
    congr 1
    funext ⟨s, goesOn⟩
    cases goesOn with
    | true => rfl
    | false =>
      show Option.map _ (Option.map _ _) = _
      rw [Option.map_map]
      exact congrFun Option.map_id _
  | udp id user group tag dir =>
    show Option.map _ (Option.map _ _) = _
    rw [Option.map_map]
    exact congrFun Option.map_id _

/-! ## The member list as a map -/

/-- The status that `member_add` reads: what is behind the address, up to the bracket. -/
def lineStatus (text : Text) : Text :=
  (stgsep ']' (stgsep ' ' (stgsep ' ' text).2).2).1.dropWhile fun c => c = ' ' ∨ c = '['

/-- What is stored of it. -/
def statusText (text : Text) : Text := stgncpy (lineStatus text) (statusSize + 1)

def lineUpdate (l : Line) : Update Text Text where
  key := l.name
  value := if l.joins then some (statusText l.text) else none

/-- The names of the list are different, and have the states of the map. -/
structure HoldsAt (s : MemberList) (rs : List Nat) (m : Text → Option Text) : Prop where
  list : IsList s rs
  nodup : (names s rs).Nodup
  map : ∀ name, m name = (rs.find? fun r => (s.val r).name = name).map fun r => (s.val r).status

def Holds (s : MemberList) (m : Text → Option Text) : Prop := ∃ rs, HoldsAt s rs m

section
variable {s : MemberList} {m : Text → Option Text} {rs l₁ l₂ : List Nat} {r : Nat} {l : Line}

theorem holds_noMembers : Holds noMembers fun _ => none := ⟨[], Links.isList_nil rfl, List.nodup_nil, fun _ => rfl⟩

theorem find?_name (hnodup : (names s rs).Nodup) (hr : r ∈ rs) :
    (rs.find? fun q => (s.val q).name = (s.val r).name) = some r := by
  induction rs with
  | nil => cases hr
  | cons q rs ih =>
    obtain ⟨hq, hrs⟩ := List.nodup_cons.mp hnodup
    rcases List.mem_cons.mp hr with rfl | hr
    · exact List.find?_cons_of_pos (decide_eq_true rfl)
    · have hne : (s.val q).name ≠ (s.val r).name := fun heq => hq (List.mem_map.mpr ⟨r, hr, heq.symm⟩)
      rw [List.find?_cons_of_neg (by simpa using hne)]
      exact ih hrs hr

theorem HoldsAt.setStatus (h : HoldsAt s rs m) (hr : r ∈ rs) (status : Text) :
    HoldsAt (Members.memberSetStatus s r status) rs
      (Function.update m (s.val r).name (some (stgncpy status (statusSize + 1)))) := by
  have hself : (Members.memberSetStatus s r status).val r =
      { s.val r with status := stgncpy status (statusSize + 1) } :=
    Links.Linked.setVal_val_self
  have hother {q : Nat} (hq : q ≠ r) : (Members.memberSetStatus s r status).val q = s.val q :=
      Links.Linked.setVal_val_of_ne hq
  have hnames : (fun q => ((Members.memberSetStatus s r status).val q).name) = fun q => (s.val q).name := by
    funext q
    by_cases hq : q = r
    · rw [hq, hself]
    · rw [hother hq]
  refine ⟨h.list.setVal r _, ?_, fun name => ?_⟩
  · unfold names
    rw [hnames]
    exact h.nodup
  · simp only [congrFun hnames]
    by_cases hname : name = (s.val r).name
    · rw [hname, Function.update_self, find?_name h.nodup hr, Option.map_some, hself]
    · rw [Function.update_of_ne hname, h.map]
      refine Option.map_congr fun q hq => ?_
      have hqname := List.find?_some hq
      rw [decide_eq_true_eq] at hqname
      rw [hother fun heq => hname (heq ▸ hqname.symm)]

theorem HoldsAt.create (h : HoldsAt s rs m) {name : Text} (hnew : name ∉ names s rs) (hshort : name.length ≤ nameSize)
    (nxtAddr status : Text) :
    HoldsAt (Members.memberCreate s name nxtAddr status) (s.nodes.next :: rs)
      (Function.update m name (some (stgncpy status (statusSize + 1)))) := by
  have hname : stgncpy name (nameSize + 1) = name := List.take_of_length_le hshort
  have hself : (Members.memberCreate s name nxtAddr status).val s.nodes.next =
      { name := stgncpy name (nameSize + 1), nxtAddr := stgncpy nxtAddr (nxtAddrSize + 1)
        status := stgncpy status (statusSize + 1) } := Links.Linked.pushFront_val_self
  have hother : ∀ q ∈ rs, (Members.memberCreate s name nxtAddr status).val q = s.val q :=
    fun q hq => Links.Linked.pushFront_val_of_lt (h.list.lt q hq)
  have hnames : names (Members.memberCreate s name nxtAddr status) (s.nodes.next :: rs) = name :: names s rs := by
    unfold names
    rw [List.map_cons, hself, hname]
    exact congrArg _ (List.map_congr_left fun q hq => by rw [hother q hq])
  refine ⟨h.list.pushFront _, hnames ▸ List.nodup_cons.mpr ⟨hnew, h.nodup⟩, fun k => ?_⟩
  by_cases hk : k = name
  · rw [hk, Function.update_self, List.find?_cons_of_pos (by rw [hself, hname, decide_eq_true_eq]), Option.map_some,
      hself]
  · have hfind : (rs.find? fun q => ((Members.memberCreate s name nxtAddr status).val q).name = k) =
        rs.find? fun q => (s.val q).name = k :=
      List.find?_congr fun q hq => by rw [hother q hq]
    rw [Function.update_of_ne hk, h.map,
      List.find?_cons_of_neg (by rw [hself, hname, decide_eq_true_eq]; exact Ne.symm hk), hfind]
    exact Option.map_congr fun q hq => by rw [hother q (List.mem_of_find?_eq_some hq)]

theorem HoldsAt.unlink (h : HoldsAt s (l₁ ++ r :: l₂) m) :
    HoldsAt (s.unlink r) (l₁ ++ l₂) (Function.update m (s.val r).name none) := by
  have hsplit : names s (l₁ ++ r :: l₂) = names s l₁ ++ (s.val r).name :: names s l₂ := by
    unfold names
    rw [List.map_append, List.map_cons]
  have hnodup := h.nodup
  rw [hsplit, List.nodup_middle] at hnodup
  obtain ⟨hfree, hnodup⟩ := List.nodup_cons.mp hnodup
  have hnames : names (s.unlink r) (l₁ ++ l₂) = names s l₁ ++ names s l₂ := by
    unfold names
    rw [List.map_append]
    simp only [Links.Linked.unlink_val]
  refine ⟨h.list.unlink, hnames ▸ hnodup, fun k => ?_⟩
  simp only [Links.Linked.unlink_val]
  by_cases hk : k = (s.val r).name
  · rw [hk, Function.update_self, eq_comm, Option.map_eq_none_iff, List.find?_eq_none]
    intro q hq hname
    apply hfree
    rw [← of_decide_eq_true hname]
    unfold names
    rw [← List.map_append]
    exact List.mem_map.mpr ⟨q, hq, rfl⟩
  · rw [Function.update_of_ne hk, h.map, List.find?_append, List.find?_append,
      List.find?_cons_of_neg (by rw [decide_eq_true_eq]; exact Ne.symm hk)]

/-- **A line is an update of the map**, if the name that comes fits. -/
theorem Holds.processLine (h : Holds s m) (hshort : l.joins → l.name.length ≤ nameSize) :
    Holds (processLine s l) (Function.update m (lineUpdate l).key (lineUpdate l).value) := by
  obtain ⟨rs, h⟩ := h
  unfold Members.processLine lineUpdate
  rcases Members.memberFind_cases h.list l.name with ⟨l₁, r, l₂, rfl, hname, -, hfind⟩ | ⟨hnew, hfind⟩
  · by_cases hjoins : l.joins
    · have hadd : Members.memberAdd s l.text = Members.memberSetStatus s r (lineStatus l.text) := by
        unfold Members.memberAdd
        dsimp only
        rw [show (stgsep ' ' l.text).1 = l.name from rfl, hfind]
        rfl
      rw [if_pos hjoins, if_pos hjoins, hadd]
      have hset := h.setStatus (List.mem_append_right _ List.mem_cons_self) (lineStatus l.text)
      rw [hname] at hset
      exact ⟨_, hset⟩
    · have hdel : Members.memberDel s l.text = s.unlink r := by
        unfold Members.memberDel
        rw [show memberName l.text = l.name from rfl, hfind]
      rw [if_neg hjoins, if_neg hjoins, hdel, ← hname]
      exact ⟨_, h.unlink⟩
  · by_cases hjoins : l.joins
    · have hadd : Members.memberAdd s l.text = Members.memberCreate s l.name (stgsep ' ' (stgsep ' ' l.text).2).1
          (lineStatus l.text) := by
        unfold Members.memberAdd
        dsimp only
        rw [show (stgsep ' ' l.text).1 = l.name from rfl, hfind]
        rfl
      rw [if_pos hjoins, if_pos hjoins, hadd]
      exact ⟨_, h.create hnew (hshort hjoins) _ _⟩
    · have hdel : Members.memberDel s l.text = s := by
        unfold Members.memberDel
        rw [show memberName l.text = l.name from rfl, hfind]
      have hnone : m l.name = none := by
        rw [h.map, Option.map_eq_none_iff, List.find?_eq_none]
        intro q hq hqname
        exact hnew (List.mem_map.mpr ⟨q, hq, of_decide_eq_true hqname⟩)
      rw [if_neg hjoins, if_neg hjoins, hdel, ← hnone, Function.update_eq_self]
      exact ⟨_, h⟩

theorem holds_foldl {lines : List Line} (h : ∀ l ∈ lines, l.joins → l.name.length ≤ nameSize) :
    Holds (lines.foldl Members.processLine noMembers) (play (fun _ => none) (lines.map lineUpdate)) := by
  induction lines using List.reverseRecOn with
  | nil => exact holds_noMembers
  | append_singleton lines l ih =>
    rw [List.foldl_append, List.map_append, List.map_singleton, Replica.play_concat]
    apply Holds.processLine (ih fun l' hl' => h l' (List.mem_append_left _ hl'))
    exact h l (List.mem_append_right _ List.mem_cons_self)

end

/-! ## Notices are lines -/

/-- The texts of a client fit into a line. -/
structure Tidy (pc : Client) : Prop where
  short : pc.user.length ≤ nameSize
  spaceless : ' ' ∉ pc.user
  unbroken : ∀ c ∈ pc.user ++ pc.nxtAddr ++ pc.status, !isBreak c

structure Notice.Tidy (n : Notice) : Prop where
  pc : Roster.Tidy n.pc
  location : ∀ c ∈ n.location, !isBreak c

/-- The status of a client as the lists show it. -/
def shown (pc : Client) : Text := statusText (memberText pc [])

def Notice.update (n : Notice) : Update Text Text where
  key := n.pc.user
  value := if n.joined then some (shown n.pc) else none

/-- A client's part, when it gets messages one by one. -/
def receive (list : MemberList) (msgs : List (List Notice)) : Option MemberList :=
  msgs.foldlM (fun list msg => tcpIo list (msg.flatMap Notice.print)) list

section
variable {pc : Client} {n : Notice} {d : Char} {s t : Text}

theorem stgsep_append (h : d ∈ s) (t : Text) : stgsep d (s ++ t) = ((stgsep d s).1, (stgsep d s).2 ++ t) := by
  induction s with
  | nil => cases h
  | cons c s ih =>
    by_cases hc : c = d
    · subst hc
      simp [stgsep]
    · have hmem : d ∈ s := (List.mem_cons.mp h).resolve_left (Ne.symm hc)
      have hrest := ih hmem
      simp only [stgsep, Prod.mk.injEq] at hrest ⊢
      simpa [hc] using hrest

theorem stgsep_of_not_mem (h : d ∉ s) (t : Text) : stgsep d (s ++ d :: t) = (s, t) := by
  have hall : ∀ c ∈ s, decide (c ≠ d) := fun c hc => decide_eq_true fun heq => h (heq ▸ hc)
  unfold stgsep
  rw [List.takeWhile_append_of_pos hall, List.dropWhile_append_of_pos hall]
  simp

/-- The status is read without looking at what is behind it. -/
theorem statusText_memberText (h : ' ' ∉ pc.user) (location : Text) :
    statusText (memberText pc location) = shown pc := by
  have hname (location : Text) : (stgsep ' ' (memberText pc location)).2 =
      (pc.nxtAddr ++ ' ' :: '[' :: (pc.status ++ [']', ' '])) ++ location := by
    unfold memberText
    rw [stgsep_of_not_mem h]
    simp
  have hspace : ' ' ∈ pc.nxtAddr ++ ' ' :: '[' :: (pc.status ++ [']', ' ']) := by simp
  have hbracket : ']' ∈ (stgsep ' ' (pc.nxtAddr ++ ' ' :: '[' :: (pc.status ++ [']', ' ']))).2 := by
    by_cases haddr : ' ' ∈ pc.nxtAddr
    · rw [stgsep_append haddr]
      simp
    · rw [stgsep_of_not_mem haddr]
      simp
  unfold shown statusText lineStatus
  rw [hname, hname, stgsep_append hspace, stgsep_append hspace, stgsep_append hbracket, stgsep_append hbracket]

theorem Notice.Tidy.text_ok (h : n.Tidy) : ∀ c ∈ memberText n.pc n.location, !isBreak c := by
  intro c hc
  have hpc := h.pc.unbroken c
  simp only [memberText, List.mem_append, List.mem_cons] at hc hpc
  rcases hc with hc | rfl | hc | rfl | rfl | hc | rfl | rfl | hc
  · exact hpc (.inl (.inl hc))
  · rfl
  · exact hpc (.inl (.inr hc))
  · rfl
  · rfl
  · exact hpc (.inr hc)
  · rfl
  · rfl
  · exact h.location c hc

def Notice.Tidy.line (h : n.Tidy) : Line where
  joins := n.joined
  text := memberText n.pc n.location
  text_ok := h.text_ok

theorem Notice.Tidy.line_name (h : n.Tidy) : h.line.name = n.pc.user := by
  show (stgsep ' ' (memberText n.pc n.location)).1 = n.pc.user
  unfold memberText
  rw [stgsep_of_not_mem h.pc.spaceless]

theorem Notice.Tidy.lineUpdate (h : n.Tidy) : lineUpdate h.line = n.update := by
  have hstatus : statusText h.line.text = shown n.pc := statusText_memberText h.pc.spaceless n.location
  unfold Roster.lineUpdate Notice.update
  rw [h.line_name, hstatus]
  rfl

theorem exists_lines {msg : List Notice} (h : ∀ n ∈ msg, n.Tidy) : ∃ lines, traffic lines = msg.flatMap Notice.print ∧
    lines.map Roster.lineUpdate = msg.map Notice.update ∧ ∀ l ∈ lines, l.joins → l.name.length ≤ nameSize := by
  induction msg with
  | nil => exact ⟨[], rfl, rfl, List.forall_mem_nil _⟩
  | cons n msg ih =>
    obtain ⟨hn, hmsg⟩ := List.forall_mem_cons.mp h
    obtain ⟨lines, htraffic, hupdates, hshort⟩ := ih hmsg
    refine ⟨hn.line :: lines, ?_, ?_, List.forall_mem_cons.mpr ⟨fun _ => hn.line_name ▸ hn.pc.short, hshort⟩⟩
    · rw [List.flatMap_cons, ← htraffic]
      rfl
    · rw [List.map_cons, List.map_cons, hn.lineUpdate, hupdates]

/-- **What a client makes of its messages** is the map that the notices leave. -/
theorem receive_holds {msgs : List (List Notice)} (h : ∀ n ∈ msgs.flatten, n.Tidy) : ∃ list,
    receive noMembers msgs = some list ∧ Holds list (play (fun _ => none) (msgs.flatten.map Notice.update)) := by
  have hlines : ∃ lines : List Line, receive noMembers msgs = some (lines.foldl processLine noMembers) ∧
      lines.map Roster.lineUpdate = msgs.flatten.map Notice.update ∧ ∀ l ∈ lines, l.joins →
      l.name.length ≤ nameSize := by
    induction msgs using List.reverseRecOn with
    | nil => exact ⟨[], rfl, rfl, List.forall_mem_nil _⟩
    | append_singleton msgs msg ih =>
      rw [List.flatten_concat] at h
      obtain ⟨hmsgs, hmsg⟩ := List.forall_mem_append.mp h
      obtain ⟨lines, hreceive, hupdates, hshort⟩ := ih hmsgs
      obtain ⟨more, htraffic, hmore, hmoreShort⟩ := exists_lines hmsg
      refine ⟨lines ++ more, ?_, ?_, List.forall_mem_append.mpr ⟨hshort, hmoreShort⟩⟩
      · unfold receive at hreceive ⊢
        rw [List.foldlM_append, hreceive, List.foldl_append,
          ← Members.tcpIo_traffic (lines.foldl processLine noMembers), htraffic]
        exact Option.bind_fun_some _
      · rw [List.map_append, hupdates, hmore, List.flatten_concat, List.map_append]
  obtain ⟨lines, hreceive, hupdates, hshort⟩ := hlines
  exact ⟨_, hreceive, hupdates ▸ holds_foldl hshort⟩

end

/-! ## The groups as maps -/

/-- The clients of a group, by name. -/
def roster (clients : List Client) (pg : Nat) : Text → Option Text := fun name =>
  (clients.find? fun pc => pc.group = some pg ∧ pc.user = name).map shown

/-- The updates of the notices about clients with a name. -/
def named (log : List Notice) : List (Update Text Text) := (log.filter fun n => n.pc.user ≠ []).map Notice.update

/-- Two clients have two sockets, and two names in a group. -/
def Apart (c c' : Client) : Prop := c.sock ≠ c'.sock ∧ ∀ pg, c.group = some pg → c'.group = some pg → c.user ≠ c'.user

/-- What a client of this group was told. -/
structure Informed (clients : List Client) (group : Option Nat) (b : Inbox) : Prop where
  tidy : ∀ n ∈ b.all, n.Tidy
  alone : group = none → (∀ n ∈ b.all, n.pc.user = []) ∧ b.late = none
  follows : ∀ pg, group = some pg → Follows (roster clients pg) (named b.all)
  covers : ∀ pg late, group = some pg → b.late = some late → Covers (roster clients pg) (named late.flatten)

section
variable {clients clients' l₁ l₂ : List Client} {x y : Option Client} {pc c c' : Client} {pg : Nat} {n : Notice}
  {log : List Notice} {b : Inbox} {group : Option Nat} {name : Text}

theorem Apart.symm (h : Apart c c') : Apart c' c := ⟨h.1.symm, fun pg hc' hc => (h.2 pg hc hc').symm⟩

instance : Std.Symm Apart := ⟨fun _ _ => Apart.symm⟩

theorem named_append (log log' : List Notice) : named (log ++ log') = named log ++ named log' := by
  unfold named
  rw [List.filter_append, List.map_append]

theorem named_singleton (h : n.pc.user ≠ []) : named [n] = [n.update] := by
  have hone : ([n].filter fun n => n.pc.user ≠ []) = [n] := List.filter_cons_of_pos (decide_eq_true h)
  unfold named
  rw [hone]
  rfl

theorem named_nameless (h : ∀ n ∈ log, n.pc.user = []) : named log = [] := by
  unfold named
  rw [List.filter_eq_nil_iff.mpr fun n hn => by simp [h n hn]]
  rfl

theorem play_named (log : List Notice) (hname : name ≠ []) :
    play (fun _ => none) (log.map Notice.update) name = play (fun _ => none) (named log) name := by
  induction log using List.reverseRecOn with
  | nil => rfl
  | append_singleton log n ih =>
    rw [List.map_append, List.map_singleton, Replica.play_concat, named_append]
    by_cases hn : n.pc.user = []
    · have hkey : n.update.key = [] := hn
      rw [named_nameless (List.forall_mem_singleton.mpr hn), List.append_nil, hkey, Function.update_of_ne hname, ih]
    · rw [named_singleton hn, Replica.play_concat]
      by_cases hkey : name = n.update.key
      · rw [hkey, Function.update_self, Function.update_self]
      · rw [Function.update_of_ne hkey, Function.update_of_ne hkey, ih]

theorem all_add (b : Inbox) (msg : List Notice) : (b.add msg).all = b.all ++ msg := by
  unfold Inbox.add Inbox.all
  cases b.late with
  | none => simp
  | some late => simp

theorem all_addList (b : Inbox) (msg : List Notice) : (b.addList msg).all = b.all ++ msg := by
  unfold Inbox.addList Inbox.all
  cases b.late with
  | none => simp
  | some late => simp

/-- One client is changed, joins or leaves: one name of its group. -/
theorem roster_replace (hx : ∀ c ∈ x, c.group = some pg → c.user = name)
    (hy : ∀ c ∈ y, c.group = some pg → c.user = name) (hfree : ∀ c ∈ l₁ ++ l₂, c.group = some pg → c.user ≠ name) :
    roster (l₁ ++ (y.toList ++ l₂)) pg = Function.update (roster (l₁ ++ (x.toList ++ l₂)) pg) name
      ((y.filter fun c => c.group = some pg).map shown) := by
  have hnone {l : List Client} (hl : ∀ c ∈ l, c.group = some pg → c.user ≠ name) :
      (l.find? fun c => c.group = some pg ∧ c.user = name) = none := by
    rw [List.find?_eq_none]
    intro c hc hand
    rw [decide_eq_true_eq] at hand
    exact hl c hc hand.1 hand.2
  obtain ⟨hfree₁, hfree₂⟩ := List.forall_mem_append.mp hfree
  funext k
  unfold roster
  by_cases hk : k = name
  · subst hk
    rw [Function.update_self, List.find?_append, hnone hfree₁, Option.none_or, List.find?_append, hnone hfree₂,
      Option.or_none]
    cases y with
    | none => rfl
    | some c =>
      by_cases hc : c.group = some pg
      · have huser := hy c rfl hc
        simp [hc, huser]
      · simp [hc]
  · have hskip {z : Option Client} (hz : ∀ c ∈ z, c.group = some pg → c.user = name) :
        (z.toList.find? fun c => c.group = some pg ∧ c.user = k) = none := by
      rw [List.find?_eq_none]
      intro c hc hand
      rw [decide_eq_true_eq] at hand
      exact hk (hand.2.symm.trans (hz c (Option.mem_toList.mp hc) hand.1))
    rw [Function.update_of_ne hk]
    simp only [List.find?_append, hskip hx, hskip hy]

theorem roster_replace_of_ne (hx : ∀ c ∈ x, c.group ≠ some pg) (hy : ∀ c ∈ y, c.group ≠ some pg) :
    roster (l₁ ++ (y.toList ++ l₂)) pg = roster (l₁ ++ (x.toList ++ l₂)) pg := by
  have hskip {z : Option Client} (hz : ∀ c ∈ z, c.group ≠ some pg) (k : Text) :
      (z.toList.find? fun c => c.group = some pg ∧ c.user = k) = none := by
    rw [List.find?_eq_none]
    intro c hc hand
    rw [decide_eq_true_eq] at hand
    exact hz c (Option.mem_toList.mp hc) hand.1
  funext k
  unfold roster
  simp only [List.find?_append, hskip hx, hskip hy]

theorem roster_eq (hapart : clients.Pairwise Apart) (hc : c ∈ clients) (hgroup : c.group = some pg) :
    roster clients pg c.user = some (shown c) := by
  obtain ⟨l₁, l₂, rfl⟩ := List.append_of_mem hc
  have hfront : ∀ c' ∈ l₁, ¬(c'.group = some pg ∧ c'.user = c.user) := fun c' hc' hand =>
    ((List.pairwise_append.mp hapart).2.2 c' hc' c List.mem_cons_self).2 pg hand.1 hgroup hand.2
  unfold roster
  rw [List.find?_append, List.find?_eq_none.mpr fun c' hc' => by simpa using hfront c' hc', Option.none_or,
    List.find?_cons_of_pos (by simpa using hgroup)]
  rfl

theorem roster_eq_some_iff (hapart : clients.Pairwise Apart) {status : Text} : roster clients pg name = some status ↔
    ∃ c ∈ clients, c.group = some pg ∧ c.user = name ∧ shown c = status := by
  constructor
  · intro h
    obtain ⟨c, hfind, hshown⟩ := Option.map_eq_some_iff.mp h
    have hand := List.find?_some hfind
    rw [decide_eq_true_eq] at hand
    exact ⟨c, List.mem_of_find?_eq_some hfind, hand.1, hand.2, hshown⟩
  · rintro ⟨c, hc, hgroup, rfl, rfl⟩
    exact roster_eq hapart hc hgroup

/-! ## What the clients are told -/

theorem Informed.join (h : Informed clients none b) (clients' : List Client) (group : Option Nat) :
    Informed clients' group b := by
  obtain ⟨hnameless, hlate⟩ := h.alone rfl
  refine ⟨h.tidy, fun _ => ⟨hnameless, hlate⟩, fun pg _ => ?_, fun pg late _ hsome => ?_⟩
  · rw [named_nameless hnameless]
    exact Replica.follows_nil _
  · rw [hlate] at hsome
    cases hsome

theorem Informed.congr (h : Informed clients group b)
    (hroster : ∀ pg, group = some pg → roster clients' pg = roster clients pg) :
    Informed clients' group b where
  tidy := h.tidy
  alone := h.alone
  follows pg hgroup := hroster pg hgroup ▸ h.follows pg hgroup
  covers pg late hgroup hlate := hroster pg hgroup ▸ h.covers pg late hgroup hlate

/-- A notice is sent to the group of its client. -/
def heard (b : Inbox) (group : Option Nat) (n : Notice) : Inbox := if group = n.pc.group then b.add [n] else b

/-- **A change of one client, with a notice to its group.** -/
theorem Informed.notified (h : Informed (l₁ ++ (x.toList ++ l₂)) group b) (hn : n.Tidy)
    (hname : n.pc.group = none ↔ n.pc.user = [])
    (hx : ∀ c ∈ x, c.group = none ∨ c.group = n.pc.group ∧ c.user = n.pc.user)
    (hy : ∀ c ∈ y, c.group = none ∨ c.group = n.pc.group ∧ c.user = n.pc.user)
    (hvalue : ∀ pg, n.pc.group = some pg → n.update.value = (y.filter fun c => c.group = some pg).map shown)
    (hfree : ∀ pg, n.pc.group = some pg → ∀ c ∈ l₁ ++ l₂, c.group = some pg → c.user ≠ n.pc.user) :
    Informed (l₁ ++ (y.toList ++ l₂)) group (heard b group n) := by
  have hone {z : Option Client} (hz : ∀ c ∈ z, c.group = none ∨ c.group = n.pc.group ∧ c.user = n.pc.user) {pg : Nat} :
      (n.pc.group = some pg → ∀ c ∈ z, c.group = some pg → c.user = n.pc.user) ∧
        (n.pc.group ≠ some pg → ∀ c ∈ z, c.group ≠ some pg) := by
    constructor
    · intro _ c hc hgroup
      rcases hz c hc with hnone | hsame
      · rw [hgroup] at hnone
        cases hnone
      · exact hsame.2
    · intro hne c hc hgroup
      rcases hz c hc with hnone | hsame
      · rw [hgroup] at hnone
        cases hnone
      · exact hne (hsame.1.symm.trans hgroup)
  unfold heard
  by_cases hgroup : group = n.pc.group
  · rw [if_pos hgroup]
    have htidy : ∀ n' ∈ (b.add [n]).all, n'.Tidy := by
      rw [all_add]
      exact List.forall_mem_append.mpr ⟨h.tidy, List.forall_mem_singleton.mpr hn⟩
    refine ⟨htidy, fun hnone => ?_, fun pg hpg => ?_, fun pg late hpg hlate => ?_⟩
    · obtain ⟨hnameless, hlate⟩ := h.alone hnone
      rw [all_add]
      refine ⟨List.forall_mem_append.mpr ⟨hnameless, List.forall_mem_singleton.mpr (hname.mp (hgroup ▸ hnone))⟩, ?_⟩
      unfold Inbox.add
      rw [hlate]
    · have hn' : n.pc.group = some pg := hgroup.symm.trans hpg
      have huser : n.pc.user ≠ [] := fun hempty => by rw [hname.mpr hempty] at hn'; cases hn'
      rw [all_add, named_append, named_singleton huser,
        roster_replace ((hone hx).1 hn') ((hone hy).1 hn') (hfree pg hn'), ← hvalue pg hn']
      exact (h.follows pg hpg).update n.update
    · have hn' : n.pc.group = some pg := hgroup.symm.trans hpg
      have huser : n.pc.user ≠ [] := fun hempty => by rw [hname.mpr hempty] at hn'; cases hn'
      unfold Inbox.add at hlate
      cases hold : b.late with
      | none =>
        rw [hold] at hlate
        cases hlate
      | some late₀ =>
        rw [hold] at hlate
        obtain rfl := Option.some.inj hlate
        rw [List.flatten_concat, named_append, named_singleton huser,
          roster_replace ((hone hx).1 hn') ((hone hy).1 hn') (hfree pg hn'), ← hvalue pg hn']
        exact (h.covers pg late₀ hpg hold).update n.update
  · rw [if_neg hgroup]
    apply h.congr
    intro pg hpg
    have hne : n.pc.group ≠ some pg := fun heq => hgroup (hpg.trans heq.symm)
    exact roster_replace_of_ne ((hone hx).2 hne) ((hone hy).2 hne)

/-- **The list of the group** is a copy of it. -/
theorem Informed.listed (h : Informed clients (some pg) b) (hapart : clients.Pairwise Apart)
    (htidy : ∀ c ∈ clients, Tidy c) (hname : ∀ c ∈ clients, c.user = [] → c.group = none) {locate : Client → Text}
    (hlocate : ∀ c, ∀ ch ∈ locate c, !isBreak ch) :
    Informed clients (some pg) (b.addList (listing locate clients pg)) := by
  have hmem {n : Notice} (hn : n ∈ listing locate clients pg) :
      n.pc ∈ clients ∧ n.pc.group = some pg ∧ n.pc.user ≠ [] ∧ n.Tidy ∧ n.joined = true := by
    obtain ⟨c, hc, rfl⟩ := List.mem_map.mp hn
    obtain ⟨hc, hand⟩ := List.mem_filter.mp hc
    rw [decide_eq_true_eq] at hand
    exact ⟨hc, hand.1, hand.2, ⟨htidy c hc, hlocate c⟩, rfl⟩
  have hcopy : IsCopy (roster clients pg) (named (listing locate clients pg)) := by
    constructor
    · intro u hu
      obtain ⟨n, hn, rfl⟩ := List.mem_map.mp hu
      obtain ⟨hc, hgroup, -, -, hjoined⟩ := hmem (List.mem_filter.mp hn).1
      show (if n.joined then some (shown n.pc) else none) = roster clients pg n.pc.user
      rw [if_pos hjoined, roster_eq hapart hc hgroup]
    · intro k hk
      obtain ⟨status, hstatus⟩ := Option.ne_none_iff_exists'.mp hk
      obtain ⟨c, hc, hgroup, rfl, -⟩ := (roster_eq_some_iff hapart).mp hstatus
      have huser : c.user ≠ [] := fun hempty => by rw [hname c hc hempty] at hgroup; cases hgroup
      have hlisted : ({ joined := true, pc := c, location := locate c } : Notice) ∈ listing locate clients pg :=
        List.mem_map.mpr ⟨c, List.mem_filter.mpr ⟨hc, decide_eq_true ⟨hgroup, huser⟩⟩, rfl⟩
      exact ⟨_, List.mem_map.mpr ⟨_, List.mem_filter.mpr ⟨hlisted, decide_eq_true huser⟩, rfl⟩, rfl⟩
  refine ⟨?_, fun hnone => absurd hnone (Option.some_ne_none pg), fun pg' hpg => ?_, fun pg' late hpg hlate => ?_⟩
  · rw [all_addList]
    exact List.forall_mem_append.mpr ⟨h.tidy, fun n hn => (hmem hn).2.2.2.1⟩
  · obtain rfl := Option.some.inj hpg
    rw [all_addList, named_append]
    exact (h.follows pg rfl).copy hcopy
  · obtain rfl := Option.some.inj hpg
    obtain rfl := Option.some.inj hlate
    rw [List.flatten_concat, named_append]
    exact hcopy.covers _

/-! ## The invariant -/

/-- The clients are told of each other, and each is told apart. -/
structure Good (clients : List Client) (inbox : Int → Inbox) : Prop where
  apart : clients.Pairwise Apart
  tidy : ∀ c ∈ clients, Tidy c
  grouped : ∀ c ∈ clients, c.group = none ↔ c.user = []
  informed : ∀ c ∈ clients, Informed clients c.group (inbox c.sock)

variable {inbox inbox' : Int → Inbox} {all : Bool}

theorem forall_mem_some {p : Client → Prop} (h : p c) : ∀ c' ∈ some c, p c' := fun _ hc => Option.some.inj hc ▸ h

theorem apart_middle (h : (l₁ ++ (x.toList ++ l₂)).Pairwise Apart) :
    (l₁ ++ l₂).Pairwise Apart ∧ ∀ c ∈ x, ∀ c' ∈ l₁ ++ l₂, Apart c c' := by
  cases x with
  | none => exact ⟨h, fun c hc => by cases hc⟩
  | some pc =>
    obtain ⟨hpc, hrest⟩ := List.pairwise_cons.mp ((List.pairwise_middle Apart.symm).mp h)
    refine ⟨hrest, fun c hc => ?_⟩
    obtain rfl := Option.some.inj hc
    exact hpc

theorem apart_replace (h : (l₁ ++ l₂).Pairwise Apart) (hy : ∀ c ∈ y, ∀ c' ∈ l₁ ++ l₂, Apart c c') :
    (l₁ ++ (y.toList ++ l₂)).Pairwise Apart := by
  cases y with
  | none => exact h
  | some pc => exact (List.pairwise_middle Apart.symm).mpr (List.pairwise_cons.mpr ⟨hy pc rfl, h⟩)

theorem hears_iff (hapart : clients.Pairwise Apart) (hc : c ∈ clients) :
    hears clients pc all c.sock = true ↔ c.group = pc.group ∧ (all ∨ c.sock ≠ pc.sock) := by
  unfold hears
  rw [List.any_eq_true]
  constructor
  · rintro ⟨cl, hcl, hand⟩
    rw [decide_eq_true_eq] at hand
    have hsame : cl = c := by
      by_contra hne
      exact (hapart.forall hcl hc hne).1 hand.1
    exact hsame ▸ hand.2
  · intro hand
    exact ⟨c, hc, decide_eq_true ⟨rfl, hand⟩⟩

theorem mem_replace : c ∈ l₁ ++ (y.toList ++ l₂) ↔ c ∈ l₁ ++ l₂ ∨ c ∈ y := by
  simp only [List.mem_append, Option.mem_toList]
  tauto

/-- **A client is changed, joins or leaves**, and the others of the group of the notice get it. -/
theorem Good.replace (h : Good (l₁ ++ (x.toList ++ l₂)) inbox) (hn : n.Tidy)
    (hname : n.pc.group = none ↔ n.pc.user = [])
    (hx : ∀ c ∈ x, c.group = none ∨ c.group = n.pc.group ∧ c.user = n.pc.user)
    (hy : ∀ c ∈ y, c.group = none ∨ c.group = n.pc.group ∧ c.user = n.pc.user)
    (hvalue : ∀ pg, n.pc.group = some pg → n.update.value = (y.filter fun c => c.group = some pg).map shown)
    (hfree : ∀ pg, n.pc.group = some pg → ∀ c ∈ l₁ ++ l₂, c.group = some pg → c.user ≠ n.pc.user)
    (hapart : ∀ c ∈ y, ∀ c' ∈ l₁ ++ l₂, Apart c c') (htidy : ∀ c ∈ y, Tidy c)
    (hgrouped : ∀ c ∈ y, c.group = none ↔ c.user = [])
    (hinbox : ∀ c ∈ l₁ ++ l₂, inbox' c.sock = heard (inbox c.sock) c.group n)
    (hself : ∀ c ∈ y, Informed (l₁ ++ (y.toList ++ l₂)) c.group (inbox' c.sock)) :
    Good (l₁ ++ (y.toList ++ l₂)) inbox' where
  apart := apart_replace (apart_middle h.apart).1 hapart
  tidy c hc := (mem_replace.mp hc).elim (fun hc => h.tidy c (mem_replace.mpr (.inl hc))) (htidy c)
  grouped c hc := (mem_replace.mp hc).elim (fun hc => h.grouped c (mem_replace.mpr (.inl hc))) (hgrouped c)
  informed c hc := by
    rcases mem_replace.mp hc with hc | hc
    · rw [hinbox c hc]
      exact (h.informed c (mem_replace.mpr (.inl hc))).notified hn hname hx hy hvalue hfree
    · exact hself c hc

theorem Good.free (h : Good (l₁ ++ pc :: l₂) inbox) : ∀ pg, pc.group = some pg → ∀ c ∈ l₁ ++ l₂, c.group = some pg →
    c.user ≠ pc.user := by
  intro pg hpg c hc hgroup
  have hapart := (apart_middle (x := some pc) h.apart).2 pc rfl c hc
  exact (hapart.2 pg hpg hgroup).symm

/-- The inboxes after a notice. -/
def notified (clients : List Client) (all : Bool) (n : Notice) (inbox : Int → Inbox) : Int → Inbox := fun k =>
  if hears clients n.pc all k then (inbox k).add [n] else inbox k

theorem notified_eq (hapart : clients.Pairwise Apart) (hc : c ∈ clients) (hheard : all ∨ c.sock ≠ n.pc.sock) :
    notified clients all n inbox c.sock = heard (inbox c.sock) c.group n := by
  apply if_congr _ rfl rfl
  rw [hears_iff hapart hc]
  exact and_iff_left hheard

theorem notified_self (hapart : clients.Pairwise Apart) (hc : c ∈ clients) (hsock : c.sock = n.pc.sock) :
    notified clients false n inbox c.sock = inbox c.sock := by
  apply if_neg
  rw [hears_iff hapart hc]
  exact fun hand => hand.2.elim Bool.false_ne_true fun hne => hne hsock

theorem update_value (hjoined : n.joined = true) :
    ∀ pg, n.pc.group = some pg → n.update.value = ((some n.pc).filter fun c => c.group = some pg).map shown := by
  intro pg hpg
  unfold Notice.update
  rw [if_pos hjoined, Option.filter_some, if_pos (decide_eq_true hpg), Option.map_some]

/-- A new status, which the client is told too. -/
theorem Good.restatus (h : Good (l₁ ++ pc :: l₂) inbox) (hn : n.Tidy) (hjoined : n.joined = true)
    (hsock : n.pc.sock = pc.sock) (hgroup : n.pc.group = pc.group) (huser : n.pc.user = pc.user) :
    Good (l₁ ++ n.pc :: l₂) (notified (l₁ ++ n.pc :: l₂) true n inbox) := by
  have hname : n.pc.group = none ↔ n.pc.user = [] := by
    rw [hgroup, huser]
    exact h.grouped pc (List.mem_append_right _ List.mem_cons_self)
  obtain ⟨hothers, hpc⟩ := @apart_middle l₁ l₂ (some pc) h.apart
  have hfree : ∀ pg, n.pc.group = some pg → ∀ c ∈ l₁ ++ l₂, c.group = some pg → c.user ≠ n.pc.user := by
    intro pg hpg c hc hcg
    rw [huser]
    exact h.free pg (hgroup ▸ hpg) c hc hcg
  have hapart : ∀ c' ∈ l₁ ++ l₂, Apart n.pc c' := by
    intro c' hc'
    obtain ⟨hne, hnames⟩ := hpc pc rfl c' hc'
    refine ⟨hsock ▸ hne, fun pg hpg hpg' => ?_⟩
    rw [huser]
    exact hnames pg (hgroup ▸ hpg) hpg'
  have hnew : (l₁ ++ n.pc :: l₂).Pairwise Apart :=
    @apart_replace l₁ l₂ (some n.pc) hothers (forall_mem_some hapart)
  have hx : ∀ c ∈ some pc, c.group = none ∨ c.group = n.pc.group ∧ c.user = n.pc.user :=
    forall_mem_some (.inr ⟨hgroup.symm, huser.symm⟩)
  have hy : ∀ c ∈ some n.pc, c.group = none ∨ c.group = n.pc.group ∧ c.user = n.pc.user :=
    forall_mem_some (.inr ⟨rfl, rfl⟩)
  have hmem : n.pc ∈ l₁ ++ n.pc :: l₂ := List.mem_append_right _ List.mem_cons_self
  refine @Good.replace l₁ l₂ (some pc) (some n.pc) n inbox _ h hn hname hx hy (update_value hjoined) hfree
    (forall_mem_some hapart) (forall_mem_some hn.pc) (forall_mem_some hname) ?_ ?_
  · intro c hc
    exact notified_eq hnew (@mem_replace l₁ l₂ (some n.pc) c |>.mpr (.inl hc)) (.inl rfl)
  · refine forall_mem_some ?_
    have hself := (h.informed pc (List.mem_append_right _ List.mem_cons_self)).notified (x := some pc)
        (y := some n.pc) hn hname
      hx hy (update_value hjoined) hfree
    rw [notified_eq hnew hmem (.inl rfl), hsock, hgroup]
    exact hself

/-- A client joins a group in which nobody has its name. -/
theorem Good.joined (h : Good (l₁ ++ pc :: l₂) inbox) (hnone : pc.group = none) (hn : n.Tidy)
    (hjoined : n.joined = true) (hsock : n.pc.sock = pc.sock) (hgroup : n.pc.group = some pg) (huser : n.pc.user ≠ [])
    (hfree : ∀ c ∈ l₁ ++ l₂, c.group = some pg → c.user ≠ n.pc.user) :
    Good (l₁ ++ n.pc :: l₂) (notified (l₁ ++ n.pc :: l₂) false n inbox) := by
  have hname : n.pc.group = none ↔ n.pc.user = [] :=
    iff_of_false (by rw [hgroup]; exact Option.some_ne_none pg) huser
  obtain ⟨hothers, hpc⟩ := @apart_middle l₁ l₂ (some pc) h.apart
  have hfree' : ∀ pg, n.pc.group = some pg → ∀ c ∈ l₁ ++ l₂, c.group = some pg → c.user ≠ n.pc.user := by
    intro pg' hpg
    obtain rfl := Option.some.inj (hgroup.symm.trans hpg)
    exact hfree
  have hapart : ∀ c' ∈ l₁ ++ l₂, Apart n.pc c' := by
    intro c' hc'
    refine ⟨hsock ▸ (hpc pc rfl c' hc').1, fun pg' hpg hpg' => (hfree' pg' hpg c' hc' hpg').symm⟩
  have hnew : (l₁ ++ n.pc :: l₂).Pairwise Apart :=
    @apart_replace l₁ l₂ (some n.pc) hothers (forall_mem_some hapart)
  have hx : ∀ c ∈ some pc, c.group = none ∨ c.group = n.pc.group ∧ c.user = n.pc.user :=
    forall_mem_some (.inl hnone)
  have hy : ∀ c ∈ some n.pc, c.group = none ∨ c.group = n.pc.group ∧ c.user = n.pc.user :=
    forall_mem_some (.inr ⟨rfl, rfl⟩)
  have hmem : n.pc ∈ l₁ ++ n.pc :: l₂ := List.mem_append_right _ List.mem_cons_self
  refine @Good.replace l₁ l₂ (some pc) (some n.pc) n inbox _ h hn hname hx hy (update_value hjoined) hfree'
    (forall_mem_some hapart) (forall_mem_some hn.pc) (forall_mem_some hname) ?_ ?_
  · intro c hc
    exact notified_eq hnew (@mem_replace l₁ l₂ (some n.pc) c |>.mpr (.inl hc)) (.inr (hapart c hc).1.symm)
  · refine forall_mem_some ?_
    have hold := h.informed pc (List.mem_append_right _ List.mem_cons_self)
    rw [hnone] at hold
    rw [notified_self hnew hmem rfl, hsock]
    exact hold.join _ _

/-- A client goes; it need not have been heard of. -/
theorem Good.left (h : Good (l₁ ++ pc :: l₂) inbox) (hn : n.Tidy) (hjoined : n.joined = false)
    (hsock : n.pc.sock = pc.sock) (hname : n.pc.group = none ↔ n.pc.user = [])
    (hpc : pc.group = none ∨ pc.group = n.pc.group ∧ pc.user = n.pc.user)
    (hfree : ∀ pg, n.pc.group = some pg → ∀ c ∈ l₁ ++ l₂, c.group = some pg → c.user ≠ n.pc.user) :
    Good (l₁ ++ l₂) (notified (l₁ ++ n.pc :: l₂) false n inbox) := by
  obtain ⟨hothers, hold⟩ := @apart_middle l₁ l₂ (some pc) h.apart
  have hapart : ∀ c' ∈ l₁ ++ l₂, Apart n.pc c' := by
    intro c' hc'
    exact ⟨hsock ▸ (hold pc rfl c' hc').1, fun pg hpg hpg' => (hfree pg hpg c' hc' hpg').symm⟩
  have hheard : (l₁ ++ n.pc :: l₂).Pairwise Apart :=
    @apart_replace l₁ l₂ (some n.pc) hothers (forall_mem_some hapart)
  have hnobody {p : Client → Prop} : ∀ c ∈ (none : Option Client), p c := fun c hc => by cases hc
  have hvalue : ∀ pg, n.pc.group = some pg →
      n.update.value = ((none : Option Client).filter fun c => c.group = some pg).map shown := by
    intro pg _
    unfold Notice.update
    rw [hjoined]
    rfl
  refine @Good.replace l₁ l₂ (some pc) none n inbox _ h hn hname
    (forall_mem_some hpc) hnobody hvalue hfree hnobody hnobody
    hnobody ?_ hnobody
  intro c hc
  exact notified_eq hheard (@mem_replace l₁ l₂ (some n.pc) c |>.mpr (.inl hc)) (.inr (hapart c hc).1.symm)

/-- A client is refused, which the others without a group hear. -/
theorem Good.refused (h : Good (l₁ ++ n.pc :: l₂) inbox) (hnone : n.pc.group = none) (hn : n.Tidy) :
    Good (l₁ ++ n.pc :: l₂) (notified (l₁ ++ n.pc :: l₂) false n inbox) := by
  have hmem : n.pc ∈ l₁ ++ n.pc :: l₂ := List.mem_append_right _ List.mem_cons_self
  have hname := h.grouped n.pc hmem
  have hapart := (@apart_middle l₁ l₂ (some n.pc) h.apart).2
  have hx : ∀ c ∈ some n.pc, c.group = none ∨ c.group = n.pc.group ∧ c.user = n.pc.user := forall_mem_some (.inl hnone)
  have hgroup {p : Nat → Prop} : ∀ pg, n.pc.group = some pg → p pg := by
    intro pg hpg
    rw [hnone] at hpg
    cases hpg
  refine @Good.replace l₁ l₂ (some n.pc) (some n.pc) n inbox _ h hn hname hx hx hgroup hgroup hapart
    (forall_mem_some hn.pc) (forall_mem_some hname) ?_ ?_
  · intro c hc
    exact notified_eq h.apart (@mem_replace l₁ l₂ (some n.pc) c |>.mpr (.inl hc)) (.inr (hapart _ rfl c hc).1.symm)
  · refine forall_mem_some ?_
    rw [notified_self h.apart hmem rfl]
    exact h.informed n.pc hmem

/-- The list of its group is sent to a client. -/
theorem Good.listed (h : Good clients inbox) (hpc : pc ∈ clients) (hgroup : pc.group = some pg) {locate : Client → Text}
    (hlocate : ∀ c, ∀ ch ∈ locate c, !isBreak ch) :
    Good clients (Function.update inbox pc.sock ((inbox pc.sock).addList (listing locate clients pg))) where
  apart := h.apart
  tidy := h.tidy
  grouped := h.grouped
  informed c hc := by
    by_cases hsame : c = pc
    · have hold := h.informed pc hpc
      rw [hgroup] at hold
      rw [hsame, hgroup, Function.update_self]
      exact hold.listed h.apart h.tidy (fun c hc => (h.grouped c hc).mpr) hlocate
    · rw [Function.update_of_ne (h.apart.forall hc hpc hsame).1]
      exact h.informed c hc

/-- A connection on a socket that is not in use. -/
theorem Good.connected (h : Good clients inbox) {sock : Int} (hfresh : ∀ c ∈ clients, c.sock ≠ sock) (id : Text) :
    Good ({ sock := sock, id := id } :: clients) (Function.update inbox sock {}) where
  apart := List.pairwise_cons.mpr ⟨fun c hc => ⟨(hfresh c hc).symm, fun pg hpg => by cases hpg⟩, h.apart⟩
  tidy := List.forall_mem_cons.mpr ⟨⟨Nat.zero_le _, List.not_mem_nil, List.forall_mem_nil _⟩, h.tidy⟩
  grouped := List.forall_mem_cons.mpr ⟨iff_of_true rfl rfl, h.grouped⟩
  informed := by
    have hblank : Informed clients none {} :=
      { tidy := List.forall_mem_nil _
        alone := fun _ => ⟨List.forall_mem_nil _, rfl⟩
        follows := fun _ hpg => absurd hpg.symm (Option.some_ne_none _)
        covers := fun _ _ hpg => absurd hpg.symm (Option.some_ne_none _) }
    refine List.forall_mem_cons.mpr ⟨?_, fun c hc => ?_⟩
    · rw [Function.update_self]
      exact hblank.join _ _
    · rw [Function.update_of_ne (hfresh c hc)]
      apply (h.informed c hc).congr
      intro pg _
      exact @roster_replace_of_ne [] clients none (some { sock := sock, id := id }) pg (fun c hc => by cases hc)
        (forall_mem_some (Option.some_ne_none pg).symm)

end

/-! ## What the server does -/

section
variable {s s' : Server} {sock : Int} {pc : Client} {i : Punch.Intro} {env : Surroundings} {goesOn : Bool}

/-- An introduction is refused, or the client joins a group in which nobody has its name. -/
theorem intro_cases (h : Punch.Exact s) (hpc : s.findBySocket sock = some pc)
    (hreturning : nameOk i.user → nameOk i.group → env.valid → (s.groupDirAdd env.dir).returning i = false)
    (hintro : s.intro sock i env = some (s', goesOn)) :
    s'.clients = s.clients ∧ (goesOn = (nameOk i.user && nameOk i.group && env.sent)) ∨
      ∃ pg, nameOk i.user ∧ nameOk i.group ∧ goesOn = env.sent ∧ i.user.length ≤ nameSize ∧
        (∀ c ∈ s.clients, c.group = some pg → c.user ≠ i.user) ∧
        s'.clients = Punch.changeFirst sock (fun pc => some
          { pc with user := i.user, nxtAddr := i.nxtAddr, status := "online".toList, group := some pg }) s.clients := by
  unfold Server.intro at hintro
  by_cases hnames : (nameOk i.user && nameOk i.group) = true
  · obtain ⟨huserOk, hgroupOk⟩ := (Bool.and_eq_true _ _).mp hnames
    rw [if_pos hnames] at hintro
    have hdir := h.groupDirAdd env.dir
    have hpc₁ : (s.groupDirAdd env.dir).findBySocket sock = some pc := by
      unfold Server.findBySocket
      rw [Punch.clients_groupDirAdd]
      exact hpc
    obtain ⟨mid, pg, hpair, -, -, hpg, hmidreturning⟩ := hdir.groupFound hpc₁ (hreturning huserOk hgroupOk)
    have hclients : mid.clients = s.clients := by
      have hmid := congrArg (fun p : Server × Nat => p.1.clients) hpair
      rw [← hmid, ← Punch.clients_groupDirAdd s env.dir]
      cases (s.groupDirAdd env.dir).groupNamed i.group <;> rfl
    dsimp only at hintro
    rw [hpair] at hintro
    dsimp only at hintro
    rw [hnames, Bool.true_and]
    by_cases hvalid : env.valid = true
    · rw [if_pos hvalid] at hintro
      have hfound := hmidreturning hvalid
      unfold Server.returning at hfound
      rw [hpg] at hfound
      dsimp only at hfound
      unfold Server.groupJoin at hintro
      cases hfind : mid.findByName i.user (some pg) with
      | some pc' =>
        rw [hfind] at hintro hfound
        dsimp only at hintro hfound
        rw [if_neg (of_decide_eq_false hfound)] at hintro
        obtain ⟨rfl, rfl⟩ := Prod.mk.inj (Option.some.inj hintro)
        exact .inl ⟨hclients, rfl⟩
      | none =>
        rw [hfind] at hintro
        obtain ⟨hfits, heq⟩ := Option.ite_none_right_eq_some.mp hintro
        obtain ⟨rfl, rfl⟩ := Prod.mk.inj (Option.some.inj heq)
        refine .inr ⟨pg, huserOk, hgroupOk, rfl, hfits.1, fun c hc hgroup hname => ?_, ?_⟩
        · have hne := List.find?_eq_none.mp hfind c (hclients ▸ hc)
          rw [hname, hgroup] at hne
          exact hne (by simp)
        · show Punch.changeFirst sock _ mid.clients = _
          rw [hclients]
    · rw [if_neg hvalid] at hintro
      obtain ⟨rfl, rfl⟩ := Prod.mk.inj (Option.some.inj hintro)
      exact .inl ⟨hclients, rfl⟩
  · rw [if_neg hnames] at hintro
    obtain ⟨rfl, rfl⟩ := Prod.mk.inj (Option.some.inj hintro)
    refine .inl ⟨rfl, ?_⟩
    rw [Bool.eq_false_iff.mpr hnames, Bool.false_and]

theorem closeConnection_clients (hclose : s.closeConnection sock = some s') :
    ∃ pc, s.findBySocket sock = some pc ∧ s'.clients = Punch.changeFirst sock (fun _ => none) s.clients := by
  unfold Server.closeConnection at hclose
  cases hpc : s.findBySocket sock with
  | none =>
    rw [hpc] at hclose
    cases hclose
  | some pc =>
    rw [hpc] at hclose
    obtain ⟨mid, hdelete, rfl⟩ := Option.map_eq_some_iff.mp hclose
    refine ⟨pc, rfl, ?_⟩
    obtain ⟨-, rfl⟩ | ⟨pg, -, -, rfl | ⟨-, rfl⟩⟩ := Punch.groupDeleteMember_cases hdelete <;> rfl

/-! ## Texts of messages -/

theorem mem_stgsep {d ch : Char} {t : Text} (h : ch ∈ (stgsep d t).1 ∨ ch ∈ (stgsep d t).2) : ch ∈ t := by
  rcases h with h | h
  · exact (List.takeWhile_sublist _).mem h
  · exact (List.dropWhile_sublist _).mem (List.mem_of_mem_drop h)

theorem unbroken_status {buf text : Text} (h : message buf = .status text) : ∀ ch ∈ text, !isBreak ch := by
  unfold message at h
  intro ch hch
  have hkept {t : Text} (heq : (buf.take (Punch.tcpMessageMax - 1)).takeWhile
      (fun c => c.toNat ≠ 0 ∧ c ≠ '\r' ∧ c ≠ '\n') = '=' :: t) (hmem : ch ∈ t) : !isBreak ch := by
    have hand := List.mem_takeWhile_imp (heq ▸ List.mem_cons_of_mem _ hmem)
    rw [decide_eq_true_eq] at hand
    simp [isBreak, hand.2.1, hand.2.2]
  split at h
  · cases h
  · cases h
  · next t heq =>
    cases h
    exact hkept heq hch
  · cases h
  · split at h <;> cases h

theorem unbroken_intro {buf : Text} (h : message buf = .intro i) : ∀ ch ∈ i.user ++ i.nxtAddr, !isBreak ch := by
  have hprinted {t : Text} (ht : Punch.isPrintable t) : ∀ ch ∈ t, !isBreak ch := by
    intro ch hch
    have hrange := List.all_eq_true.mp ((Bool.and_eq_true _ _).mp ht).2 ch hch
    rw [decide_eq_true_eq] at hrange
    unfold isBreak
    simp only [Bool.not_eq_true', decide_eq_false_iff_not]
    rintro (rfl | rfl)
    · exact absurd hrange.1 (by decide)
    · exact absurd hrange.1 (by decide)
  unfold message at h
  split at h
  · cases h
  · cases h
  · cases h
  · cases h
  · split at h
    · next ht =>
      cases h
      intro ch hch
      apply hprinted ht
      rcases List.mem_append.mp hch with hch | hch
      · exact mem_stgsep (.inl (mem_stgsep (.inl hch)))
      · exact mem_stgsep (.inr hch)
    · cases h

theorem nameOk_spaceless {name : Text} (h : nameOk name) : ' ' ∉ name := by
  intro hmem
  exact absurd (List.all_eq_true.mp ((Bool.and_eq_true _ _).mp h).1 _ hmem) (by decide)

end

/-! ## Runs -/

/-- The clients and their messages in every state. -/
structure Inv (ro : Session) : Prop where
  exact : Punch.Exact ro.server
  good : Good ro.server.clients ro.inbox

/-- A connection gets a socket that is not in use, and no hole is punched. -/
def ordinary (s : Server) : Punch.Event → Bool
  | .connect sock _ => (s.findBySocket sock).isNone
  | .traffic .. => true
  | .udp .. => false

/-- Nor does a client return while its old connection is there. -/
def Orderly (ro : Session) (e : Event) : Prop := Punch.NotReturning ro.server e.event ∧ ordinary ro.server e.event

instance (ro : Session) (e : Event) : Decidable (Orderly ro e) := inferInstanceAs (Decidable (_ ∧ _))

theorem inv_init : Inv {} where
  exact := Punch.exact_init
  good := ⟨List.Pairwise.nil, List.forall_mem_nil _, List.forall_mem_nil _, List.forall_mem_nil _⟩

section
variable {s s' : Server} {sock : Int} {pc pc' : Client} {l₁ l₂ : List Client} {inbox : Int → Inbox}
  {locate : Client → Text} {joined all : Bool}

theorem notify_eq (hpc : s.findBySocket sock = some pc) :
    notify locate s inbox sock joined all =
    notified s.clients all { joined := joined, pc := pc, location := locate pc } inbox := by
  unfold notify
  rw [hpc]
  rfl

theorem findBySocket_replace (hclients : s.clients = l₁ ++ pc' :: l₂) (hsock : pc'.sock = sock)
    (hfront : ∀ c ∈ l₁, c.sock ≠ sock) : s.findBySocket sock = some pc' := by
  unfold Server.findBySocket
  rw [hclients, List.find?_append, List.find?_eq_none.mpr fun c hc => by simpa using hfront c hc, Option.none_or,
    List.find?_cons_of_pos (by simpa using hsock)]

theorem Good.split (h : Good s.clients inbox) (hpc : s.findBySocket sock = some pc) :
    ∃ l₁ l₂, s.clients = l₁ ++ pc :: l₂ ∧
    pc.sock = sock ∧ (∀ c ∈ l₁, c.sock ≠ sock) ∧
      ∀ f, Punch.changeFirst sock f s.clients = l₁ ++ ((f pc).toList ++ l₂) := by
  obtain ⟨l₁, l₂, hclients, hchange⟩ := Punch.changeFirst_eq hpc
  have hsock : pc.sock = sock := by simpa using List.find?_some hpc
  have hapart := h.apart
  rw [hclients] at hapart
  refine ⟨l₁, l₂, hclients, hsock, fun c hc => ?_, hchange⟩
  rw [← hsock]
  exact ((List.pairwise_append.mp hapart).2.2 c hc pc List.mem_cons_self).1

/-- **The end of a connection.** -/
theorem Good.close (h : Good s.clients inbox) (hlocate : ∀ c, ∀ ch ∈ locate c, !isBreak ch)
    (hclose : s.closeConnection sock = some s') : Good s'.clients (notify locate s inbox sock false false) := by
  obtain ⟨pc, hpc, hclients'⟩ := closeConnection_clients hclose
  obtain ⟨l₁, l₂, hclients, -, -, hchange⟩ := h.split hpc
  rw [hclients', hchange, notify_eq hpc]
  rw [hclients] at h ⊢
  have hmem : pc ∈ l₁ ++ pc :: l₂ := List.mem_append_right _ List.mem_cons_self
  exact h.left (n := { joined := false, pc := pc, location := locate pc }) ⟨h.tidy pc hmem, hlocate pc⟩ rfl rfl
    (h.grouped pc hmem) (.inr ⟨rfl, rfl⟩) h.free

end

section
variable {ro ro' : Session} {e : Event} {sock : Int} {read : Option Text} {env : Surroundings} {pc : Client}

theorem good_finish {s : Server} {inbox : Int → Inbox} {locate : Client → Text}
    (hlocate : ∀ c, ∀ ch ∈ locate c, !isBreak ch) (h : Good s.clients inbox) {goesOn : Bool}
    (hstep : (if goesOn then some { server := s, inbox := inbox } else
      Session.closeConnection { server := s, inbox := inbox } locate sock) = some ro') :
    Good ro'.server.clients ro'.inbox := by
  cases goesOn with
  | true =>
    obtain rfl := Option.some.inj hstep
    exact h
  | false =>
    obtain ⟨s', hclose, rfl⟩ := Option.map_eq_some_iff.mp hstep
    exact h.close hlocate hclose

theorem changeFirst_append {l₁ l₂ : List Client} (hfront : ∀ c ∈ l₁, c.sock ≠ sock) (hsock : pc.sock = sock)
    (f : Client → Option Client) : Punch.changeFirst sock f (l₁ ++ pc :: l₂) = l₁ ++ ((f pc).toList ++ l₂) := by
  induction l₁ with
  | nil => exact if_pos (by simpa using hsock)
  | cons c l₁ ih =>
    obtain ⟨hc, hl₁⟩ := List.forall_mem_cons.mp hfront
    rw [List.cons_append, Punch.changeFirst, if_neg (by simpa using hc), ih hl₁]
    rfl

/-- A client introduces itself. -/
theorem good_intro {s s' : Server} {inbox inbox' : Int → Inbox} {locate : Client → Text}
    (hlocate : ∀ c, ∀ ch ∈ locate c, !isBreak ch) (hexact : Punch.Exact s) (h : Good s.clients inbox)
    (hpc : s.findBySocket sock = some pc) (huser : pc.user = []) {i : Punch.Intro}
    (hi : ∀ ch ∈ i.user ++ i.nxtAddr, !isBreak ch)
    (hreturning : nameOk i.user → nameOk i.group → env.valid → (s.groupDirAdd env.dir).returning i = false)
    {goesOn : Bool}
    (hintro : s.intro sock i env = some (s', goesOn))
    (hinbox : inbox' =
      if pc.user = [] ∧ nameOk i.user ∧ nameOk i.group ∧ env.sent then notify locate s' inbox sock true false
      else inbox)
    (hstep : (if goesOn then some { server := s', inbox := inbox' } else
      Session.closeConnection { server := s', inbox := inbox' } locate sock) = some ro') :
    Good ro'.server.clients ro'.inbox := by
  obtain ⟨l₁, l₂, hclients, hsock, hfront, hchange⟩ := h.split hpc
  have hmem : pc ∈ s.clients := hclients ▸ List.mem_append_right _ List.mem_cons_self
  have hnone : pc.group = none := (h.grouped pc hmem).mpr huser
  rcases intro_cases hexact hpc hreturning hintro with
    ⟨hsame, -⟩ | ⟨pg, huserOk, hgroupOk, hgoes, hshort, hfree, hjoined⟩
  · have hpc' : s'.findBySocket sock = some pc := by
      unfold Server.findBySocket
      rw [hsame]
      exact hpc
    apply good_finish hlocate _ hstep
    rw [hinbox, notify_eq hpc', hsame]
    split
    · rw [hclients] at h ⊢
      exact h.refused (n := { joined := true, pc := pc, location := locate pc }) hnone
        ⟨h.tidy pc (List.mem_append_right _ List.mem_cons_self), hlocate pc⟩
    · exact h
  · have hchanged := hjoined.trans (hchange _)
    let pc' : Client := { pc with user := i.user, nxtAddr := i.nxtAddr, status := "online".toList, group := some pg }
    have hpc' : s'.findBySocket sock = some pc' := findBySocket_replace hchanged hsock hfront
    have htidy : Tidy pc' := by
      have honline : ∀ ch ∈ "online".toList, !isBreak ch := List.all_eq_true.mp (by decide)
      exact ⟨hshort, nameOk_spaceless huserOk, List.forall_mem_append.mpr ⟨hi, honline⟩⟩
    have hothers : ∀ c ∈ l₁ ++ l₂, c.group = some pg → c.user ≠ i.user := by
      intro c hc
      apply hfree c
      rw [hclients]
      exact @mem_replace l₁ l₂ (some pc) c |>.mpr (.inl hc)
    have hfree' : ∀ pg', pc'.group = some pg' → ∀ c ∈ l₁ ++ l₂, c.group = some pg' → c.user ≠ pc'.user := by
      intro pg' hpg
      obtain rfl := Option.some.inj hpg
      exact hothers
    have huser' : pc'.user ≠ [] := Punch.nameOk_ne_nil huserOk
    rw [hclients] at h
    by_cases hsent : env.sent = true
    · rw [hgoes, if_pos hsent] at hstep
      obtain rfl := Option.some.inj hstep
      rw [hinbox, if_pos ⟨huser, huserOk, hgroupOk, hsent⟩, notify_eq hpc', hchanged]
      exact h.joined (n := { joined := true, pc := pc', location := locate pc' }) hnone ⟨htidy, hlocate pc'⟩ rfl rfl rfl
        huser' hothers
    · rw [hgoes, if_neg hsent, hinbox, if_neg fun hand => hsent hand.2.2.2] at hstep
      obtain ⟨s'', hclose, rfl⟩ := Option.map_eq_some_iff.mp hstep
      obtain ⟨-, -, hclosed⟩ := closeConnection_clients hclose
      show Good s''.clients (notify locate s' inbox sock false false)
      rw [hclosed, notify_eq hpc', hchanged]
      show Good (Punch.changeFirst sock _ (l₁ ++ pc' :: l₂)) _
      have hgone := @changeFirst_append sock pc' l₁ l₂ hfront hsock fun _ => none
      rw [hgone]
      exact h.left (n := { joined := false, pc := pc', location := locate pc' }) ⟨htidy, hlocate pc'⟩ rfl rfl
        (iff_of_false (Option.some_ne_none pg) huser') (.inl hnone) hfree'

/-! ### What a message sends -/

section
variable {s s' : Server} {locate : Client → Text} {buf : Text}

theorem sent_unknown (hpc : ro.server.findBySocket sock = none) : ro.sent locate s sock read env = ro.inbox := by
  unfold Session.sent
  rw [hpc]

theorem sent_closed : ro.sent locate s sock none env = ro.inbox := by
  unfold Session.sent
  cases ro.server.findBySocket sock <;> rfl

theorem sent_quiet (hmessage : message buf = .empty ∨ message buf = .exit ∨ message buf = .illegal) :
    ro.sent locate s sock (some buf) env = ro.inbox := by
  unfold Session.sent
  cases ro.server.findBySocket sock with
  | none => rfl
  | some pc =>
    dsimp only
    rcases hmessage with heq | heq | heq <;> rw [heq]

theorem sent_status (hpc : ro.server.findBySocket sock = some pc) {text : Text}
    (hmessage : message buf = .status text) :
    ro.sent locate s sock (some buf) env = notify locate s ro.inbox sock true true := by
  unfold Session.sent
  rw [hpc]
  dsimp only
  rw [hmessage]

theorem sent_list (hpc : ro.server.findBySocket sock = some pc) (hmessage : message buf = .list) {pg : Nat}
    (hgroup : pc.group = some pg) : ro.sent locate s sock (some buf) env =
      if env.sent then Function.update ro.inbox sock ((ro.inbox sock).addList (listing locate ro.server.clients pg))
      else ro.inbox := by
  unfold Session.sent
  rw [hpc]
  dsimp only
  rw [hmessage]
  dsimp only
  rw [hgroup]

theorem sent_list_none (hpc : ro.server.findBySocket sock = some pc) (hmessage : message buf = .list)
    (hgroup : pc.group = none) : ro.sent locate s sock (some buf) env = ro.inbox := by
  unfold Session.sent
  rw [hpc]
  dsimp only
  rw [hmessage]
  dsimp only
  rw [hgroup]

theorem sent_intro (hpc : ro.server.findBySocket sock = some pc) {i : Punch.Intro} (hmessage : message buf = .intro i) :
    ro.sent locate s sock (some buf) env =
      if pc.user = [] ∧ nameOk i.user ∧ nameOk i.group ∧ env.sent then notify locate s ro.inbox sock true false
      else ro.inbox := by
  unfold Session.sent
  rw [hpc]
  dsimp only
  rw [hmessage]

/-- A client changes its status. -/
theorem good_status {inbox : Int → Inbox} (hlocate : ∀ c, ∀ ch ∈ locate c, !isBreak ch) (h : Good s.clients inbox)
    (hpc : s.findBySocket sock = some pc) {text : Text} (htext : ∀ ch ∈ text, !isBreak ch)
    (hs' : s' = s.change sock fun pc => some { pc with status := text.take statusSize }) :
    Good s'.clients (notify locate s' inbox sock true true) := by
  obtain ⟨l₁, l₂, hclients, hsock, hfront, hchange⟩ := h.split hpc
  let pc' : Client := { pc with status := text.take statusSize }
  have hchanged : s'.clients = l₁ ++ pc' :: l₂ := by
    rw [hs']
    exact hchange fun pc => some { pc with status := text.take statusSize }
  have hpc' : s'.findBySocket sock = some pc' := findBySocket_replace hchanged hsock hfront
  have htidy : Tidy pc' := by
    have hold := h.tidy pc (hclients ▸ List.mem_append_right _ List.mem_cons_self)
    refine ⟨hold.short, hold.spaceless, List.forall_mem_append.mpr ⟨(List.forall_mem_append.mp hold.unbroken).1, ?_⟩⟩
    exact fun ch hch => htext ch (List.mem_of_mem_take hch)
  rw [notify_eq hpc', hchanged]
  rw [hclients] at h
  exact h.restatus (n := { joined := true, pc := pc', location := locate pc' }) ⟨htidy, hlocate pc'⟩ rfl rfl rfl rfl

theorem good_list {inbox : Int → Inbox} (hlocate : ∀ c, ∀ ch ∈ locate c, !isBreak ch) (h : Good s.clients inbox)
    (hpc : s.findBySocket sock = some pc) {pg : Nat} (hgroup : pc.group = some pg) :
    Good s.clients (Function.update inbox sock ((inbox sock).addList (listing locate s.clients pg))) := by
  obtain ⟨l₁, l₂, hclients, hsock, -, -⟩ := h.split hpc
  rw [← hsock]
  exact h.listed (hclients ▸ List.mem_append_right _ List.mem_cons_self) hgroup hlocate

end

/-- **A message of a client.** -/
theorem good_traffic (hlocate : ∀ c, ∀ ch ∈ e.locate c, !isBreak ch) (h : Inv ro)
    (he : e.event = .traffic sock read env) (hreturning : Punch.NotReturning ro.server e.event)
    (hstep : step ro e = some ro') :
    Good ro'.server.clients ro'.inbox := by
  obtain ⟨hexact, h⟩ := h
  unfold step at hstep
  rw [he] at hstep hreturning
  obtain ⟨⟨s, goesOn⟩, htraffic, hstep⟩ := Option.bind_eq_some_iff.mp hstep
  dsimp only at hstep
  unfold Server.receiveTcpTraffic at htraffic
  have hstill {g : Bool} (heq : some (ro.server, g) = some (s, goesOn))
      (hquiet : ro.sent e.locate s sock read env = ro.inbox) : Good ro'.server.clients ro'.inbox := by
    obtain ⟨rfl, rfl⟩ := Prod.mk.inj (Option.some.inj heq)
    rw [hquiet] at hstep
    exact good_finish hlocate h hstep
  cases hpc : ro.server.findBySocket sock with
  | none =>
    rw [hpc] at htraffic
    exact hstill htraffic (sent_unknown hpc)
  | some pc =>
    cases read with
    | none =>
      rw [hpc] at htraffic
      exact hstill htraffic sent_closed
    | some buf =>
      rw [hpc] at htraffic
      dsimp only at htraffic
      cases hmessage : message buf with
      | empty =>
        rw [hmessage] at htraffic
        exact hstill htraffic (sent_quiet (.inl hmessage))
      | exit =>
        rw [hmessage] at htraffic
        exact hstill htraffic (sent_quiet (.inr (.inl hmessage)))
      | illegal =>
        rw [hmessage] at htraffic
        exact hstill htraffic (sent_quiet (.inr (.inr hmessage)))
      | status text =>
        rw [hmessage] at htraffic
        obtain ⟨rfl, rfl⟩ := Prod.mk.inj (Option.some.inj htraffic)
        obtain rfl := Option.some.inj hstep
        rw [sent_status hpc hmessage]
        exact good_status hlocate h hpc (unbroken_status hmessage) rfl
      | list =>
        rw [hmessage] at htraffic
        obtain ⟨-, heq⟩ := Option.ite_none_right_eq_some.mp htraffic
        cases hgroup : pc.group with
        | none => exact hstill heq (sent_list_none hpc hmessage hgroup)
        | some pg =>
          by_cases henv : env.sent = true
          · obtain ⟨rfl, rfl⟩ := Prod.mk.inj (Option.some.inj heq)
            rw [if_pos henv] at hstep
            obtain rfl := Option.some.inj hstep
            rw [sent_list hpc hmessage hgroup, if_pos henv]
            exact good_list hlocate h hpc hgroup
          · apply hstill heq
            rw [sent_list hpc hmessage hgroup, if_neg henv]
      | intro i =>
        rw [hmessage] at htraffic
        dsimp only at htraffic
        by_cases huser : pc.user = []
        · rw [if_neg (not_not_intro huser)] at htraffic
          unfold Punch.NotReturning Punch.returns at hreturning
          dsimp only at hreturning
          rw [hpc, hmessage] at hreturning
          dsimp only at hreturning
          refine good_intro hlocate hexact h hpc huser (unbroken_intro hmessage)
            (fun huserOk hgroupOk hvalid => ?_) htraffic
            (sent_intro hpc hmessage) hstep
          rw [decide_eq_true huser, huserOk, hgroupOk, hvalid] at hreturning
          exact hreturning
        · rw [if_pos huser] at htraffic
          apply hstill htraffic
          rw [sent_intro hpc hmessage, if_neg fun hand => huser hand.1]

/-- **The step lemma.** -/
theorem Inv.step (h : Inv ro) (hok : Orderly ro e) (hstep : step ro e = some ro') : Inv ro' := by
  obtain ⟨hreturning, hordinary⟩ := hok
  have hserver : Punch.step ro.server e.event = some ro'.server := by
    rw [← step_server, hstep]
    rfl
  refine ⟨h.exact.step hreturning hserver, ?_⟩
  cases he : e.event with
  | connect sock id =>
    unfold Roster.step at hstep
    rw [he] at hstep hordinary
    obtain rfl := Option.some.inj hstep
    apply h.good.connected
    intro c hc hsock
    have hnone := List.find?_eq_none.mp (Option.isNone_iff_eq_none.mp hordinary) c hc
    exact hnone (by simpa using hsock)
  | traffic sock read env => exact good_traffic e.locate_ok h he hreturning hstep
  | udp id user group tag dir =>
    rw [he] at hordinary
    cases hordinary

end

theorem inv_of_run {es : List Event} {ro : Session} (hok : Run.Along step Orderly {} es)
    (hrun : Run.run step {} es = some ro) :
    Inv ro :=
  Run.run_invariant (fun hok hstep h => Inv.step h hok hstep) hok hrun inv_init

/-- The list that a client makes of what it was sent. -/
theorem received_roster {es : List Event} {ro : Session} (hok : Run.Along step Orderly {} es)
    (hrun : Run.run step {} es = some ro) {pc : Client} (hpc : pc ∈ ro.server.clients) {pg : Nat}
    (hgroup : pc.group = some pg) {late : List (List Notice)} (hlate : (ro.inbox pc.sock).late = some late)
    {kept : List (List Notice)} (hkept : kept <:+ (ro.inbox pc.sock).early) : ∃ list rs,
    receive noMembers (kept ++ late) = some list ∧ IsList list rs ∧ (names list rs).Nodup ∧
      ∀ name ≠ [], (rs.find? fun r => (list.val r).name = name).map (fun r => (list.val r).status) =
        roster ro.server.clients pg name := by
  have hgood := (inv_of_run hok hrun).good
  have hinformed := hgood.informed pc hpc
  obtain ⟨lost, hlost⟩ := hkept
  have hall : (ro.inbox pc.sock).all = lost.flatten ++ (kept ++ late).flatten := by
    unfold Inbox.all
    rw [hlate, Option.getD_some, ← hlost, List.append_assoc, List.flatten_append]
  have htidy : ∀ n ∈ (kept ++ late).flatten, n.Tidy := by
    intro n hn
    apply hinformed.tidy
    rw [hall]
    exact List.mem_append_right _ hn
  obtain ⟨list, hreceive, rs, hholds⟩ := receive_holds htidy
  refine ⟨list, rs, hreceive, hholds.list, hholds.nodup, fun name hname => ?_⟩
  have hplay : play (fun _ => none) (named (kept ++ late).flatten) = roster ro.server.clients pg := by
    rw [List.flatten_append, named_append]
    apply Replica.play_eq_of_follows _ (hinformed.covers pg late hgroup hlate)
    · exact List.suffix_append (named lost.flatten) (named kept.flatten)
    · rw [← named_append, ← named_append, List.append_assoc, ← List.flatten_append, ← hall]
      exact hinformed.follows pg hgroup
  rw [← hholds.map, play_named _ hname, hplay]

/-- Alice and Bob join, Bob asks for the list, and Alice gets busy. -/
def chess : List Event :=
  (Punch.introductions "alice/chess/token 11" "bob/chess/token 12" ++
    [Punch.Event.traffic 5 (some "?".toList) {}, .traffic 4 (some "=busy".toList) {}]).map fun e => { event := e }

/-- The server and the messages after it. -/
def atChess : Session := (Run.run step {} chess).getD {}

end NXTServices.Roster
