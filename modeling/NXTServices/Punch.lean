import NXTServices.Lib.Arena
import NXTServices.Lib.Refcount
import NXTServices.Lib.Run
import NXTServices.Text

/-!
# The groups of the punch server: `NXTsync/NXTmembers.h` and `NXTsync/punch.c`

* `Group`, `Client`, `Server` : the groups, which clients point to, and the connected clients;
* `intro`, `receiveTcpTraffic`, `closeConnection` : the messages of a client, and the end of its connection;
* `Event`, `step` : the server; what comes from the network and the group directory is part of the event;
* `Counts` : each group counts its clients, and no client points to a deleted group;
* `always_counts` : it does unless a client returns to a group before its old connection is closed.
-/

namespace NXTServices.Punch

/-! ## Groups and clients -/

def nameSize : Nat := 16
def nxtAddrSize : Nat := 24
def statusSize : Nat := 64
def tcpMessageMax : Nat := 1400

/-- `permanent` groups come from the group directory. -/
structure Group where
  name : Text
  nMembers : Int
  permanent : Bool := false

def Group.add (n : Int) (g : Group) : Group := { g with nMembers := g.nMembers + n }

structure Client where
  sock : Int
  id : Text
  group : Option Nat := none
  user : Text := []
  nxtAddr : Text := []
  status : Text := []

/-- The clients and the addresses of the groups, the last one first. -/
structure Server where
  clients : List Client := []
  groupList : List Nat := []
  groups : Arena Group := { cell := fun _ => { name := [], nMembers := 0 } }

def Server.findBySocket (s : Server) (sock : Int) : Option Client := s.clients.find? (·.sock == sock)

def Server.findByName (s : Server) (user : Text) (pg : Option Nat) : Option Client :=
  s.clients.find? fun pc => pc.user == user && pg == pc.group

def Server.findById (s : Server) (id : Text) : Option Client := s.clients.find? (·.id == id)

def isAlnum (c : Char) : Bool := '0' ≤ c ∧ c ≤ '9' ∨ 'a' ≤ c ∧ c ≤ 'z' ∨ 'A' ≤ c ∧ c ≤ 'Z'

def nameOk (s : Text) : Bool := s.all (fun c => isAlnum c ∨ c = '_' ∨ c = '-' ∨ c = '+') && 3 ≤ s.length

/-- A new group, at the head of the list; its name is cut off. -/
def Server.groupCreate (s : Server) (group : Text) (nMembers : Int) (permanent : Bool) : Server :=
  { s with
    groupList := s.groups.next :: s.groupList
    groups := s.groups.alloc { name := group.take nameSize, nMembers := nMembers, permanent := permanent } }

/-- The search in the list. -/
def Server.groupNamed (s : Server) (group : Text) : Option Nat :=
  s.groupList.find? fun pg => (s.groups.cell pg).name == group.take nameSize

/-- `dir` are the files of the group directory that can be read, when it has changed. -/
def Server.groupDirAdd (s : Server) (dir : List Text) : Server :=
  dir.foldl (fun s name =>
    if name.head? ≠ some '.' ∧ s.groupNamed name = none then s.groupCreate name 1 true else s) s

/-- The first client of a socket is changed, or deleted. -/
def changeFirst (sock : Int) (f : Client → Option Client) : List Client → List Client
  | [] => []
  | pc :: clients => if pc.sock == sock then (f pc).toList ++ clients else pc :: changeFirst sock f clients

def Server.change (s : Server) (sock : Int) (f : Client → Option Client) : Server :=
  { s with clients := changeFirst sock f s.clients }

/-- `none` is `-1`. A client of that name in the group is taken for the same one if the addresses are. -/
def Server.groupJoin (s : Server) (pg : Nat) (user nxtAddr : Text) : Option Server :=
  match s.findByName user (some pg) with
  | none => some { s with groups := s.groups.modify pg (.add 1) }
  | some pc => if pc.nxtAddr = nxtAddr then some s else none

/-- It is undefined for a group that is not there any more, or that counts too little. -/
def Server.groupDeleteMember (s : Server) (pg : Option Nat) : Option Server :=
  match pg with
  | none => some s
  | some pg =>
    if pg ∈ s.groupList then
      let s := { s with groups := s.groups.modify pg (.add (-1)) }
      let nMembers := (s.groups.cell pg).nMembers
      if 0 < nMembers then some s
      else if nMembers = 0 then some { s with groupList := s.groupList.erase pg }
      else none
    else none

def Server.clientCreate (s : Server) (sock : Int) (id : Text) : Server :=
  { s with clients := { sock := sock, id := id } :: s.clients }

/-- `close_connection`; there must be a client. -/
def Server.closeConnection (s : Server) (sock : Int) : Option Server :=
  match s.findBySocket sock with
  | none => none
  | some pc => (s.groupDeleteMember pc.group).map fun s => s.change sock fun _ => none

/-! ## Messages -/

structure Intro where
  user : Text
  group : Text
  pass : Text
  nxtAddr : Text

inductive Message where
  | empty
  | exit
  | status (text : Text)
  | list
  | illegal
  | intro (i : Intro)

/-- The text up to the delimiter, and what is after it. -/
def stgsep (delim : Char) (s : Text) : Text × Text := (s.takeWhile (· ≠ delim), (s.dropWhile (· ≠ delim)).drop 1)

def parseIntro (buf : Text) : Intro :=
  let (text, nxtAddr) := stgsep ' ' buf
  let (user, text) := stgsep '/' text
  let (group, pass) := stgsep '/' text
  { user := user, group := group, pass := pass, nxtAddr := nxtAddr }

def isPrintable (s : Text) : Bool := s ≠ [] && s.all fun c => 0x20 ≤ c.toNat ∧ c.toNat ≤ 0x7e

/-- What a client sends, up to a null or the end of the line. -/
def message (buf : Text) : Message :=
  match (buf.take (tcpMessageMax - 1)).takeWhile (fun c => c.toNat ≠ 0 ∧ c ≠ '\r' ∧ c ≠ '\n') with
  | [] => .empty
  | '.' :: _ => .exit
  | '=' :: text => .status text
  | '?' :: _ => .list
  | text => if isPrintable text then .intro (parseIntro text) else .illegal

/-- What comes from outside with a message: the group directory, whether the token is valid and whether the answer
could be sent. -/
structure Surroundings where
  dir : List Text := []
  valid : Bool := true
  sent : Bool := true

/-- The connection goes on if the result is true. -/
def Server.intro (s : Server) (sock : Int) (i : Intro) (env : Surroundings) : Option (Server × Bool) :=
  if nameOk i.user && nameOk i.group then
    let s := s.groupDirAdd env.dir
    let (s, pg) := match s.groupNamed i.group with
      | some pg => (s, pg)
      | none => (s.groupCreate i.group 0 false, s.groups.next)
    if env.valid then
      match s.groupJoin pg i.user i.nxtAddr with
      | none => some (s, env.sent)
      | some s =>
        if i.user.length ≤ nameSize ∧ i.nxtAddr.length ≤ nxtAddrSize then
          let joined (pc : Client) : Client :=
            { pc with user := i.user, nxtAddr := i.nxtAddr, status := "online".toList, group := some pg }
          some (s.change sock fun pc => some (joined pc), env.sent)
        else none
    else some (s, env.sent)
  else some (s, false)

/-- `read` is `none` at the end of the connection. What the list says is not part of the model, only that the group
of the client is looked at. -/
def Server.receiveTcpTraffic (s : Server) (sock : Int) (read : Option Text) (env : Surroundings) :
    Option (Server × Bool) :=
  match s.findBySocket sock, read with
  | none, _ => some (s, false)
  | some _, none => some (s, false)
  | some pc, some buf =>
    match message buf with
    | .empty => some (s, true)
    | .exit => some (s, false)
    | .status text => some (s.change sock fun pc => some { pc with status := text.take statusSize }, true)
    | .list => if ∀ pg ∈ pc.group, pg ∈ s.groupList then some (s, env.sent) else none
    | .illegal => some (s, env.sent)
    | .intro i => if pc.user ≠ [] then some (s, env.sent) else s.intro sock i env

/-- A request of client `id` to punch a hole to `user`; the name of the group of the client is sent on. -/
def Server.receiveUdpPunch (s : Server) (id user group tag : Text) (dir : List Text) : Option Server :=
  let s := s.groupDirAdd dir
  match s.findById id, s.groupNamed group, s.findByName user (s.groupNamed group) with
  | some pc, some _, some target =>
    if target.user ≠ [] ∧ (tag = "initiate".toList ∨ tag = "confirm".toList ∨ tag = "deny".toList) then
      if ∀ pg ∈ pc.group, pg ∈ s.groupList then some s else none
    else some s
  | _, _, _ => some s

inductive Event where
  | connect (sock : Int) (id : Text)
  | traffic (sock : Int) (read : Option Text) (env : Surroundings)
  | udp (id user group tag : Text) (dir : List Text)

def step (s : Server) : Event → Option Server
  | .connect sock id => some (s.clientCreate sock id)
  | .traffic sock read env =>
    (s.receiveTcpTraffic sock read env).bind fun (s, goesOn) => if goesOn then some s else s.closeConnection sock
  | .udp id user group tag dir => s.receiveUdpPunch id user group tag dir

/-! ## The counts -/

/-- The number of clients that point to a group. -/
def Server.members (s : Server) (pg : Nat) : Nat := s.clients.countP (·.group == some pg)

/-- Each group that is not permanent counts its clients, and no client points to a deleted group. -/
def Counts (s : Server) : Prop :=
  (∀ pg ∈ s.groupList, (s.groups.cell pg).permanent = false → (s.groups.cell pg).nMembers = s.members pg) ∧
    ∀ pc ∈ s.clients, ∀ pg ∈ pc.group, pg ∈ s.groupList

instance (s : Server) : Decidable (Counts s) := inferInstanceAs (Decidable (_ ∧ _))

/-- A client that is in the group and has the same name and address as the one that introduces itself. -/
def Server.returning (s : Server) (i : Intro) : Bool :=
  match s.groupNamed i.group with
  | none => false
  | some pg =>
    match s.findByName i.user (some pg) with
    | none => false
    | some pc => pc.nxtAddr = i.nxtAddr

/-- A client introduces itself with a valid token while one of the same name and address is in the group. -/
def returns (s : Server) : Event → Bool
  | .traffic sock (some buf) env =>
    match s.findBySocket sock, message buf with
    | some pc, .intro i =>
      pc.user = [] && nameOk i.user && nameOk i.group && env.valid && (s.groupDirAdd env.dir).returning i
    | _, _ => false
  | _ => false

def NotReturning (s : Server) (e : Event) : Prop := returns s e = false

instance (s : Server) (e : Event) : Decidable (NotReturning s e) := inferInstanceAs (Decidable (returns s e = false))

section
variable {s s' : Server} {sock : Int} {pc : Client}

/-! ## The invariant -/

/-- The groups count their clients; a permanent one counts one more. -/
structure Exact (s : Server) : Prop where
  refs : Refcount.Exact (· ∈ s.groupList) (fun pg => (s.groups.cell pg).nMembers)
    (fun pg => if (s.groups.cell pg).permanent then 1 else 0) (s.clients.map Client.group)
  nodup : s.groupList.Nodup
  lt : ∀ pg ∈ s.groupList, pg < s.groups.next
  group_none : ∀ pc ∈ s.clients, pc.user = [] → pc.group = none

theorem exact_init : Exact {} where
  refs := ⟨fun _ h => absurd h List.not_mem_nil, fun _ h => absurd h List.not_mem_nil⟩
  nodup := List.nodup_nil
  lt _ h := absurd h List.not_mem_nil
  group_none _ h := absurd h List.not_mem_nil

theorem Exact.counts (h : Exact s) : Counts s := by
  constructor
  · intro pg hpg hpermanent
    have heq := h.refs.count_eq pg hpg
    simp only [hpermanent, Bool.false_eq_true, if_false, Int.add_zero, List.count, List.countP_map] at heq
    exact heq
  · intro pc hpc pg hpg
    exact h.refs.alive_of_mem pg (List.mem_map.mpr ⟨pc, hpc, hpg⟩)

/-! ## New groups -/

theorem groupDirAdd_cons (s : Server) (name : Text) (dir : List Text) : s.groupDirAdd (name :: dir) =
    (if name.head? ≠ some '.' ∧ s.groupNamed name = none then s.groupCreate name 1 true else s).groupDirAdd dir := rfl

/-- A new group counts one if it is permanent. -/
theorem Exact.groupCreate (h : Exact s) (group : Text) {nMembers : Int} {permanent : Bool}
    (hn : nMembers = if permanent then 1 else 0) : Exact (s.groupCreate group nMembers permanent) where
  refs := by
    have hfresh : s.groups.next ∉ s.groupList := fun hmem => Nat.lt_irrefl _ (h.lt _ hmem)
    refine h.refs.create hfresh (fun b => List.mem_cons) ?_ ?_
    · show (Arena.cell (s.groups.alloc _) s.groups.next).nMembers =
        if (Arena.cell (s.groups.alloc _) _).permanent then 1 else 0
      rw [Arena.alloc_cell_next, hn]
    · intro b hb
      show (Arena.cell (s.groups.alloc _) b).nMembers = _ ∧
        (if (Arena.cell (s.groups.alloc _) b).permanent then 1 else 0) = _
      rw [Arena.alloc_cell_of_ne hb]
      exact ⟨rfl, rfl⟩
  nodup := List.nodup_cons.mpr ⟨fun hmem => Nat.lt_irrefl _ (h.lt _ hmem), h.nodup⟩
  lt pg hpg := by
    rcases List.mem_cons.mp hpg with rfl | hpg
    · exact Nat.lt_succ_self _
    · exact Nat.lt_succ_of_lt (h.lt pg hpg)
  group_none := h.group_none

theorem Exact.groupDirAdd (h : Exact s) (dir : List Text) : Exact (s.groupDirAdd dir) := by
  induction dir generalizing s with
  | nil => exact h
  | cons name dir ih =>
    rw [groupDirAdd_cons]
    split
    · exact ih (h.groupCreate name rfl)
    · exact ih h

theorem clients_groupDirAdd (s : Server) (dir : List Text) : (s.groupDirAdd dir).clients = s.clients := by
  induction dir generalizing s with
  | nil => rfl
  | cons name dir ih =>
    rw [groupDirAdd_cons, ih]
    split <;> rfl

theorem groupNamed_mem {group : Text} {pg : Nat} (h : s.groupNamed group = some pg) : pg ∈ s.groupList :=
  List.mem_of_find?_eq_some h

/-! ## Changes of a client -/

theorem changeFirst_eq {clients : List Client} (h : clients.find? (·.sock == sock) = some pc) :
    ∃ l₁ l₂, clients = l₁ ++ pc :: l₂ ∧ ∀ f, changeFirst sock f clients = l₁ ++ ((f pc).toList ++ l₂) := by
  induction clients with
  | nil => cases h
  | cons c clients ih =>
    rw [List.find?_cons] at h
    split at h
    case h_1 hc =>
      obtain rfl := Option.some.inj h
      exact ⟨[], clients, rfl, fun f => if_pos hc⟩
    case h_2 hc =>
      obtain ⟨l₁, l₂, heq, hchange⟩ := ih h
      refine ⟨c :: l₁, l₂, by rw [heq]; rfl, fun f => ?_⟩
      rw [changeFirst, if_neg (by rw [hc]; exact Bool.false_ne_true), hchange]
      rfl

theorem groups_changeFirst (hpc : s.findBySocket sock = some pc) : ∃ l₁ l₂,
    s.clients.map Client.group = l₁ ++ pc.group :: l₂ ∧
      ∀ f, (changeFirst sock f s.clients).map Client.group = l₁ ++ (((f pc).map Client.group).toList ++ l₂) := by
  obtain ⟨l₁, l₂, hclients, hchange⟩ := changeFirst_eq hpc
  refine ⟨l₁.map Client.group, l₂.map Client.group, by rw [hclients, List.map_append, List.map_cons], fun f => ?_⟩
  rw [hchange, List.map_append, List.map_append]
  cases f pc <;> rfl

theorem Exact.group_none_changeFirst (h : Exact s) (hpc : s.findBySocket sock = some pc) {f : Client → Option Client}
    (hf : ∀ pc' ∈ f pc, pc'.user = [] → pc'.group = none) :
    ∀ c ∈ changeFirst sock f s.clients, c.user = [] → c.group = none := by
  obtain ⟨l₁, l₂, hclients, hchange⟩ := changeFirst_eq hpc
  rw [hchange]
  intro c hc
  rcases List.mem_append.mp hc with hc | hc
  · exact h.group_none c (hclients ▸ List.mem_append_left _ hc)
  · rcases List.mem_append.mp hc with hc | hc
    · exact hf c (Option.mem_toList.mp hc)
    · exact h.group_none c (hclients ▸ List.mem_append_right _ (List.mem_cons_of_mem _ hc))

/-- The text of a client does not matter. -/
theorem Exact.change (h : Exact s) (hpc : s.findBySocket sock = some pc) {pc' : Client} {f : Client → Option Client}
    (hf : f pc = some pc') (hgroup : pc'.group = pc.group) (huser : pc'.user = pc.user) : Exact (s.change sock f) where
  refs := by
    obtain ⟨l₁, l₂, hold, hnew⟩ := groups_changeFirst hpc
    have hrefs := h.refs
    show Refcount.Exact _ _ _ ((changeFirst sock f s.clients).map Client.group)
    rw [hold] at hrefs
    rw [hnew, hf, Option.map_some, hgroup]
    exact hrefs
  nodup := h.nodup
  lt := h.lt
  group_none := by
    refine h.group_none_changeFirst hpc fun c hc hempty => ?_
    obtain rfl := Option.some.inj (hf.symm.trans hc)
    rw [hgroup]
    exact h.group_none pc (List.mem_of_find?_eq_some hpc) (huser ▸ hempty)

/-- A client without a group joins one, and is counted. -/
theorem Exact.join (h : Exact s) (hpc : s.findBySocket sock = some pc) (hnone : pc.group = none) {pg : Nat}
    (hpg : pg ∈ s.groupList) {pc' : Client} {f : Client → Option Client} (hf : f pc = some pc')
    (hgroup : pc'.group = some pg) (huser : pc'.user ≠ []) :
    Exact (Server.change { s with groups := s.groups.modify pg (.add 1) } sock f) where
  refs := by
    have hpermanent := Arena.modify_proj (a := s.groups) (r := pg) (f := .add 1) Group.permanent fun _ => rfl
    obtain ⟨l₁, l₂, hold, hnew⟩ := groups_changeFirst hpc
    have hrefs := h.refs
    rw [hold, hnone] at hrefs
    show Refcount.Exact _ _ _ ((changeFirst sock f s.clients).map Client.group)
    rw [hnew, hf, Option.map_some, hgroup]
    simp only [Server.change, hpermanent]
    refine (Refcount.exact_insert_none.mp hrefs).acquire hpg ?_ ?_
    · rw [Arena.modify_cell_self]
      rfl
    · intro b hb
      rw [Arena.modify_cell, if_neg hb]
  nodup := h.nodup
  lt pg hpg := h.lt pg hpg
  group_none := by
    refine h.group_none_changeFirst hpc fun c hc hempty => ?_
    obtain rfl := Option.some.inj (hf.symm.trans hc)
    exact absurd hempty huser

/-! ## The end of a connection -/

theorem Exact.leave (h : Exact s) (hpc : s.findBySocket sock = some pc) {pg : Nat} (hgroup : pc.group = some pg) :
    Refcount.Exact (· ∈ s.groupList) (fun b => ((s.groups.modify pg (.add (-1))).cell b).nMembers)
      (fun b => if (s.groups.cell b).permanent then 1 else 0)
      ((changeFirst sock (fun _ => none) s.clients).map Client.group) := by
  obtain ⟨l₁, l₂, hold, hnew⟩ := groups_changeFirst hpc
  have hrefs := h.refs
  rw [hold, hgroup] at hrefs
  rw [hnew]
  refine hrefs.release ?_ ?_
  · rw [Arena.modify_cell_self]
    rfl
  · intro b hb
    rw [Arena.modify_cell, if_neg hb]

/-- A group is left as it is, counts one client less, or goes with its last one. -/
theorem groupDeleteMember_cases {group : Option Nat} {mid : Server} (hdelete : s.groupDeleteMember group = some mid) :
    group = none ∧ mid = s ∨ ∃ pg, group = some pg ∧ pg ∈ s.groupList ∧
      (mid = { s with groups := s.groups.modify pg (.add (-1)) } ∨
        ((s.groups.modify pg (.add (-1))).cell pg).nMembers = 0 ∧
          mid = { s with groups := s.groups.modify pg (.add (-1)), groupList := s.groupList.erase pg }) := by
  unfold Server.groupDeleteMember at hdelete
  cases group with
  | none => exact .inl ⟨rfl, (Option.some.inj hdelete).symm⟩
  | some pg =>
    dsimp only at hdelete
    obtain ⟨hpg, hdelete⟩ := Option.ite_none_right_eq_some.mp hdelete
    refine .inr ⟨pg, rfl, hpg, ?_⟩
    by_cases hmore : 0 < ((s.groups.modify pg (.add (-1))).cell pg).nMembers
    · rw [if_pos hmore] at hdelete
      exact .inl (Option.some.inj hdelete).symm
    · rw [if_neg hmore] at hdelete
      obtain ⟨hzero, hdelete⟩ := Option.ite_none_right_eq_some.mp hdelete
      exact .inr ⟨hzero, (Option.some.inj hdelete).symm⟩

/-- What a client counted is taken off; the group goes when it was the last one. -/
theorem Exact.closeConnection (h : Exact s) (hclose : s.closeConnection sock = some s') : Exact s' := by
  unfold Server.closeConnection at hclose
  cases hpc : s.findBySocket sock with
  | none =>
    rw [hpc] at hclose
    cases hclose
  | some pc =>
    rw [hpc] at hclose
    obtain ⟨mid, hdelete, rfl⟩ := Option.map_eq_some_iff.mp hclose
    have hnone : ∀ c ∈ changeFirst sock (fun _ => none) s.clients, c.user = [] → c.group = none :=
      h.group_none_changeFirst hpc fun _ hc => by cases hc
    obtain ⟨hgroup, rfl⟩ | ⟨pg, hgroup, hpg, hmid⟩ := groupDeleteMember_cases hdelete
    · refine ⟨?_, h.nodup, h.lt, hnone⟩
      obtain ⟨l₁, l₂, hold, hnew⟩ := groups_changeFirst hpc
      have hrefs := h.refs
      rw [hold, hgroup] at hrefs
      show Refcount.Exact _ _ _ ((changeFirst sock (fun _ => none) mid.clients).map Client.group)
      rw [hnew]
      exact Refcount.exact_insert_none.mp hrefs
    · have hpermanent := Arena.modify_proj (a := s.groups) (r := pg) (f := .add (-1)) Group.permanent fun _ => rfl
      have hleave := h.leave hpc hgroup
      obtain rfl | ⟨hzero, rfl⟩ := hmid
      · refine ⟨?_, h.nodup, h.lt, hnone⟩
        simp only [Server.change, hpermanent]
        exact hleave
      · have hbase : 0 ≤ if (s.groups.cell pg).permanent then (1 : Int) else 0 := by split <;> decide
        refine ⟨?_, h.nodup.erase pg, fun pg hpg => h.lt pg (List.mem_of_mem_erase hpg), hnone⟩
        simp only [Server.change, hpermanent]
        exact hleave.free hpg hzero hbase fun b => h.nodup.mem_erase_iff

/-! ## Introductions -/

theorem groupJoin_of_not_returning {pg : Nat} {i : Intro} (hpg : s.groupNamed i.group = some pg)
    (hreturning : s.returning i = false) (hjoin : s.groupJoin pg i.user i.nxtAddr = some s') :
    s' = { s with groups := s.groups.modify pg (.add 1) } := by
  unfold Server.returning at hreturning
  rw [hpg] at hreturning
  dsimp only at hreturning
  unfold Server.groupJoin at hjoin
  cases hfind : s.findByName i.user (some pg) with
  | none =>
    rw [hfind] at hjoin
    exact (Option.some.inj hjoin).symm
  | some pc =>
    rw [hfind] at hjoin hreturning
    dsimp only at hjoin
    rw [if_neg (of_decide_eq_false hreturning)] at hjoin
    cases hjoin

theorem groupNamed_groupCreate (s : Server) (group : Text) (nMembers : Int) (permanent : Bool) :
    (s.groupCreate group nMembers permanent).groupNamed group = some s.groups.next := by
  refine List.find?_cons_of_pos ?_
  show ((Arena.cell (s.groups.alloc _) s.groups.next).name == group.take nameSize) = true
  rw [Arena.alloc_cell_next]
  exact beq_self_eq_true _

theorem nameOk_ne_nil {name : Text} (h : nameOk name = true) : name ≠ [] := by
  rintro rfl
  exact absurd h (by decide)

theorem not_returning_groupCreate (h : Exact s) {i : Intro} (nMembers : Int) (permanent : Bool) :
    (s.groupCreate i.group nMembers permanent).returning i = false := by
  unfold Server.returning
  rw [groupNamed_groupCreate]
  have hfind : (s.groupCreate i.group nMembers permanent).findByName i.user (some s.groups.next) = none := by
    refine List.find?_eq_none.mpr fun pc hpc hand => ?_
    have hgroup : pc.group = some s.groups.next := by
      simp only [Bool.and_eq_true, beq_iff_eq] at hand
      exact hand.2.symm
    have hmem := h.refs.alive_of_mem s.groups.next (List.mem_map.mpr ⟨pc, hpc, hgroup⟩)
    exact Nat.lt_irrefl _ (h.lt _ hmem)
  dsimp only
  rw [hfind]

theorem Exact.groupFound (h : Exact s) (hpc : s.findBySocket sock = some pc) {i : Intro} {valid : Prop}
    (hreturning : valid → s.returning i = false) :
    ∃ mid pg,
      (match s.groupNamed i.group with
        | some pg => (s, pg)
        | none => (s.groupCreate i.group 0 false, s.groups.next)) = (mid, pg) ∧
      Exact mid ∧ mid.findBySocket sock = some pc ∧ mid.groupNamed i.group = some pg ∧
      (valid → mid.returning i = false) := by
  cases hnamed : s.groupNamed i.group with
  | some pg => exact ⟨_, _, rfl, h, hpc, hnamed, hreturning⟩
  | none =>
    exact ⟨_, _, rfl, h.groupCreate i.group rfl, hpc, groupNamed_groupCreate _ _ _ _,
      fun _ => not_returning_groupCreate h 0 false⟩

theorem Exact.intro (h : Exact s) (hpc : s.findBySocket sock = some pc) (huser : pc.user = []) {i : Intro}
    {env : Surroundings} {goesOn : Bool}
    (hreturning : nameOk i.user → nameOk i.group → env.valid → (s.groupDirAdd env.dir).returning i = false)
    (hintro : s.intro sock i env = some (s', goesOn)) : Exact s' := by
  have hnone : pc.group = none := h.group_none pc (List.mem_of_find?_eq_some hpc) huser
  unfold Server.intro at hintro
  split at hintro
  case isFalse =>
    obtain ⟨rfl, -⟩ := Prod.mk.inj (Option.some.inj hintro)
    exact h
  case isTrue hnames =>
    obtain ⟨huserOk, hgroupOk⟩ := (Bool.and_eq_true _ _).mp hnames
    have hdir := h.groupDirAdd env.dir
    have hpc₁ : (s.groupDirAdd env.dir).findBySocket sock = some pc := by
      unfold Server.findBySocket
      rw [clients_groupDirAdd]
      exact hpc
    obtain ⟨mid, pg, hpair, hmid, hpcmid, hpg, hmidreturning⟩ := hdir.groupFound hpc₁ (hreturning huserOk hgroupOk)
    dsimp only at hintro
    rw [hpair] at hintro
    dsimp only at hintro
    split at hintro
    case isFalse =>
      obtain ⟨rfl, -⟩ := Prod.mk.inj (Option.some.inj hintro)
      exact hmid
    case isTrue hvalid =>
      cases hjoin : mid.groupJoin pg i.user i.nxtAddr with
      | none =>
        rw [hjoin] at hintro
        obtain ⟨rfl, -⟩ := Prod.mk.inj (Option.some.inj hintro)
        exact hmid
      | some joined =>
        rw [hjoin] at hintro
        obtain ⟨-, heq⟩ := Option.ite_none_right_eq_some.mp hintro
        obtain ⟨rfl, -⟩ := Prod.mk.inj (Option.some.inj heq)
        obtain rfl := groupJoin_of_not_returning hpg (hmidreturning hvalid) hjoin
        exact hmid.join hpcmid hnone (groupNamed_mem hpg) rfl rfl (nameOk_ne_nil huserOk)

theorem Exact.receiveTcpTraffic (h : Exact s) {read : Option Text} {env : Surroundings} {goesOn : Bool}
    (hreturning : NotReturning s (.traffic sock read env))
    (htraffic : s.receiveTcpTraffic sock read env = some (s', goesOn)) : Exact s' := by
  have hsame {g : Bool} (heq : some (s, g) = some (s', goesOn)) : Exact s' := by
    obtain ⟨rfl, -⟩ := Prod.mk.inj (Option.some.inj heq)
    exact h
  unfold Server.receiveTcpTraffic at htraffic
  cases hpc : s.findBySocket sock with
  | none =>
    rw [hpc] at htraffic
    exact hsame htraffic
  | some pc =>
    cases read with
    | none =>
      rw [hpc] at htraffic
      exact hsame htraffic
    | some buf =>
      rw [hpc] at htraffic
      unfold NotReturning returns at hreturning
      dsimp only at hreturning
      rw [hpc] at hreturning
      dsimp only at htraffic
      cases hmessage : message buf with
      | empty =>
        rw [hmessage] at htraffic
        exact hsame htraffic
      | exit =>
        rw [hmessage] at htraffic
        exact hsame htraffic
      | status text =>
        rw [hmessage] at htraffic
        obtain ⟨rfl, -⟩ := Prod.mk.inj (Option.some.inj htraffic)
        exact h.change hpc rfl rfl rfl
      | list =>
        rw [hmessage] at htraffic
        exact hsame (Option.ite_none_right_eq_some.mp htraffic).2
      | illegal =>
        rw [hmessage] at htraffic
        exact hsame htraffic
      | intro i =>
        rw [hmessage] at htraffic hreturning
        dsimp only at htraffic hreturning
        split at htraffic
        case isTrue => exact hsame htraffic
        case isFalse huser =>
          have huser : pc.user = [] := of_not_not huser
          refine h.intro hpc huser (fun huserOk hgroupOk hvalid => ?_) htraffic
          rw [decide_eq_true huser, huserOk, hgroupOk, hvalid] at hreturning
          exact hreturning

/-! ## Steps -/

theorem Exact.clientCreate (h : Exact s) (sock : Int) (id : Text) : Exact (s.clientCreate sock id) where
  refs := (@Refcount.exact_insert_none _ _ _ _ _ [] _).mpr h.refs
  nodup := h.nodup
  lt := h.lt
  group_none pc hpc hempty := by
    rcases List.mem_cons.mp hpc with rfl | hpc
    · rfl
    · exact h.group_none pc hpc hempty

theorem Exact.receiveUdpPunch (h : Exact s) {id user group tag : Text} {dir : List Text}
    (hudp : s.receiveUdpPunch id user group tag dir = some s') : Exact s' := by
  have hdir := h.groupDirAdd dir
  have hsame (heq : some (s.groupDirAdd dir) = some s') : Exact s' := Option.some.inj heq ▸ hdir
  unfold Server.receiveUdpPunch at hudp
  dsimp only at hudp
  split at hudp
  · split at hudp
    · exact hsame (Option.ite_none_right_eq_some.mp hudp).2
    · exact hsame hudp
  · exact hsame hudp

/-- **The step lemma.** -/
theorem Exact.step (h : Exact s) {e : Event} (hreturning : NotReturning s e) (hstep : step s e = some s') :
    Exact s' := by
  cases e with
  | connect sock id =>
    obtain rfl := Option.some.inj hstep
    exact h.clientCreate sock id
  | traffic sock read env =>
    obtain ⟨⟨mid, goesOn⟩, htraffic, hclose⟩ := Option.bind_eq_some_iff.mp hstep
    have hmid := h.receiveTcpTraffic hreturning htraffic
    dsimp only at hclose
    split at hclose
    · exact Option.some.inj hclose ▸ hmid
    · exact hmid.closeConnection hclose
  | udp id user group tag dir => exact h.receiveUdpPunch hstep

end

/-- **The groups count their clients** in every state of a run in which no client returns to its group while its old
connection is there. -/
theorem always_counts (es : List Event) (h : Run.Along step NotReturning {} es) : Run.Always step Counts {} es :=
  Run.always_of_along Exact (fun _ hs => hs.counts) (fun hok hstep hs => hs.step hok hstep) h exact_init

/-- Two clients, with sockets 4 and 5, that introduce themselves. -/
def introductions (first second : String) : List Event :=
  [.connect 4 "id:1-1".toList, .connect 5 "id:2-2".toList, .traffic 4 (some first.toList) {},
    .traffic 5 (some second.toList) {}]

/-- Two members; the first one leaves, then the second one. -/
theorem always_counts_two : Run.Always step Counts {}
    (introductions "alice/chess/token 11" "bob/chess/token 12" ++ [.traffic 4 none {}, .traffic 5 none {}]) :=
  always_counts _ (by decide)

/-- The same member twice: the end of the first connection deletes the group of the second one. -/
theorem not_forall_always_counts : ¬∀ es : List Event, Run.Always step Counts {} es := by
  intro h
  exact absurd (h (introductions "alice/chess/token 11" "alice/chess/token 11" ++ [.traffic 4 none {}])) (by decide)

end NXTServices.Punch
