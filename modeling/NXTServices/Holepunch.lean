import NXTServices.Hex
import NXTServices.Inet
import NXTServices.Introduction
import NXTServices.Roster

/-!
# Requests to punch a hole: `servpunch` of `NXTsync/punch.c` and `get_correspondent_address` of `NXTsync/punch-client.c`

* `readPunch`, `servpunch`, `receiveUdpPunch` : a datagram at the server, and the request that it sends on;
* `getCorrespondentAddress` : what the client that gets the request makes of it;
* `Labelled`, `labelled_of_run` : no two groups have one name, and the names have no separators;
* `getCorrespondentAddress_request` : a request is taken apart into what it was made of;
* `punch_introduces` : **a request reaches only the group of its sender**, and it brings the address and the key.

`calc_ipbits` and `_match_ipaddr_nxt64bits` are not in the repository, and nor are `punch_add_ipaddr` and
`copy_member_data`, which keep the address for other parts of the program.
-/

namespace NXTServices.Holepunch
open Inet
open Links (IsList)
open Members (MemberList memberFind memberCreate names nextLine isBreak noMembers)
open Punch (Client Server Surroundings NotReturning Intro nameOk isAlnum stgsep message)
open Roster (Session Orderly receive roster stgsep_of_not_mem)

/-! ## The server -/

/-- `sizeof(pc->pubkeystr)`, which has the digits of a key and a null. -/
def pubkeystrSize : Nat := 65

/-- The parts of a datagram. -/
structure Datagram where
  id : Text
  user : Text
  group : Text
  pubkey : Text
  tag : Text

/-- What `receive_udp_punch` reads of a datagram, which is shorter than the buffer. -/
def readPunch (buf : Text) : Datagram :=
  let (id, s) := stgsep ' ' (Hex.cString buf)
  let (user, s) := stgsep '/' s
  let (group, s) := stgsep ' ' s
  let (pubkey, s) := stgsep ' ' s
  { id := id, user := user, group := group, pubkey := pubkey, tag := (nextLine s).1 }

/-- The name and the group of a client, its address and its key. -/
def requestText (user group : Text) (ip : BitVec 32) (port : BitVec 16) (pubkeystr : Text) : Text :=
  user ++ '/' :: (group ++ ' ' :: (inetNtoa ip ++ ':' :: (Nat.toDigits 10 port.toNat ++ ' ' :: pubkeystr)))

/-- The request, and the key of the client. A key that fills its field is read beyond it. -/
def servpunch (user group : Text) (ip : BitVec 32) (port : BitVec 16) (tag mypubkey pubkeystr : Text) :
    Option (Option Text × Text) :=
  if tag = "initiate".toList ∨ tag = "confirm".toList then
    let pubkeystr := if mypubkey ≠ [] then mypubkey else pubkeystr
    if pubkeystr.length < pubkeystrSize then
      some (some ((if tag = "initiate".toList then '>' else '<') :: requestText user group ip port pubkeystr),
        pubkeystr)
    else none
  else if tag = "deny".toList then some (some ('!' :: (user ++ '/' :: group)), pubkeystr)
  else some (none, pubkeystr)

/-- What is sent, and to which socket, and the keys of the clients by their sockets. -/
def receiveUdpPunch (s : Server) (keys : Int → Text) (ip : BitVec 32) (port : BitVec 16) (buf : Text)
    (dir : List Text) :
    Option (Option (Int × Text) × (Int → Text)) :=
  let d := readPunch buf
  let s := s.groupDirAdd dir
  match s.findById d.id, s.groupNamed d.group, s.findByName d.user (s.groupNamed d.group) with
  | some pc, some _, some target =>
    match pc.group with
    | none => some (none, keys)
    | some pg =>
      if target.user ≠ [] then
        (servpunch pc.user (s.groups.cell pg).name ip port d.tag d.pubkey (keys pc.sock)).map fun (text, pubkeystr) =>
          (text.map fun text => (target.sock, text), Function.update keys pc.sock pubkeystr)
      else some (none, keys)
  | _, _, _ => some (none, keys)

/-! ## The client -/

/-- What a client knows of the address of a member. -/
structure Peer where
  port : BitVec 16 := 0
  ipbits : BitVec 32 := 0
  sinAddr : BitVec 32 := 0
  haveAddress : Bool := false
  pubkey : List (BitVec 8) := List.replicate 32 0
  pubkeystr : Text := []

/-- The addresses are those of the nodes of the member list. -/
structure PunchClient where
  groupname : Text
  members : MemberList
  peers : Nat → Peer := fun _ => {}
  corresponding : Int := 0

section
variable (calcIpbits : Text → BitVec 32) (matchIpaddr : BitVec 32 → BitVec 16 → BitVec 64 × BitVec 16)

/-- The address and the key of a member; a key of other than 64 digits is not read as the code reads it. -/
def Peer.set (peer : Peer) (ipaddr : Text) (port : BitVec 16) (pubkey : Text) : Peer where
  port := port
  ipbits := calcIpbits ipaddr
  sinAddr := inetAddr ipaddr
  haveAddress := true
  pubkey := if pubkey ≠ [] then Protocol.decodeHex 32 pubkey else peer.pubkey
  pubkeystr := if pubkey ≠ [] then pubkey else peer.pubkeystr

/-- The member that the request is about. One that is not on the list is added when its address is known. -/
def getCorrespondentAddress (c : PunchClient) (request : Text) : Option Nat × PunchClient :=
  let (name, request) := stgsep '/' request
  let (grp, request) := stgsep ' ' request
  let (ipaddr, request) := stgsep ':' request
  let (portstr, request) := stgsep ' ' request
  let pubkey := (stgsep '\n' request).1
  let port := BitVec.ofNat 16 (strtoul portstr).1
  let known (c : PunchClient) (pm : Nat) (port : BitVec 16) : Option Nat × PunchClient :=
    (some pm,
      { c with
        peers := Function.update c.peers pm ((c.peers pm).set calcIpbits ipaddr port pubkey)
        corresponding := c.corresponding + 1 })
  if grp = c.groupname ∧ port ≠ 0 then
    match memberFind c.members name with
    | some pm => known c pm port
    | none =>
      let (nxt64bits, port) := matchIpaddr (calcIpbits ipaddr) port
      if nxt64bits ≠ 0 then
        known
          { c with
            members := memberCreate c.members name (expandNxt64bits nxt64bits) "online".toList
            peers := Function.update c.peers c.members.nodes.next {} }
          c.members.nodes.next port
      else (none, c)
  else (none, c)

end

/-! ## The names of the groups -/

/-- A character of a name. -/
def isNameChar (c : Char) : Bool := isAlnum c ∨ c = '_' ∨ c = '-' ∨ c = '+'

/-- No two groups have one name, and the names of the clients and of their groups are made of the characters of names.
-/
structure Labelled (s : Server) : Prop where
  distinct : ∀ pg ∈ s.groupList, ∀ pg' ∈ s.groupList, (s.groups.cell pg).name = (s.groups.cell pg').name → pg = pg'
  users : ∀ pc ∈ s.clients, ∀ ch ∈ pc.user, isNameChar ch
  groups : ∀ pc ∈ s.clients, ∀ pg ∈ pc.group, ∀ ch ∈ (s.groups.cell pg).name, isNameChar ch

section Labels
variable {s s' : Server} {sock : Int} {pc : Client}

theorem labelled_init : Labelled {} := ⟨List.forall_mem_nil _, List.forall_mem_nil _, List.forall_mem_nil _⟩

theorem isNameChar_of_nameOk {name : Text} (h : nameOk name) : ∀ ch ∈ name, isNameChar ch := fun ch hch =>
  List.all_eq_true.mp ((Bool.and_eq_true _ _).mp h).1 ch hch

theorem alive (h : Punch.Exact s) (hpc : pc ∈ s.clients) {pg : Nat} (hpg : pg ∈ pc.group) : pg ∈ s.groupList :=
  h.refs.alive_of_mem pg (List.mem_map.mpr ⟨pc, hpc, hpg⟩)

theorem Labelled.congr (h : Labelled s) (hlist : ∀ pg ∈ s'.groupList, pg ∈ s.groupList)
    (hnames : ∀ pg, (s'.groups.cell pg).name = (s.groups.cell pg).name)
    (hclients : ∀ pc ∈ s'.clients, pc ∈ s.clients ∨ (∀ ch ∈ pc.user, isNameChar ch) ∧
      ∀ pg ∈ pc.group, ∀ ch ∈ (s.groups.cell pg).name, isNameChar ch) : Labelled s' where
  distinct pg hpg pg' hpg' hname := by
    rw [hnames, hnames] at hname
    exact h.distinct pg (hlist pg hpg) pg' (hlist pg' hpg') hname
  users pc hpc := (hclients pc hpc).elim (h.users pc) And.left
  groups pc hpc pg hpg := by
    rw [hnames]
    exact (hclients pc hpc).elim (fun hold => h.groups pc hold pg hpg) fun hnew => hnew.2 pg hpg

/-- A group is created under a name that no other one has. -/
theorem Labelled.groupCreate (h : Labelled s) (hexact : Punch.Exact s) {group : Text}
    (hnone : s.groupNamed group = none) (nMembers : Int) (permanent : Bool) :
    Labelled (s.groupCreate group nMembers permanent) := by
  have hold (pg : Nat) (hpg : pg ∈ s.groupList) :
      ((s.groupCreate group nMembers permanent).groups.cell pg).name = (s.groups.cell pg).name :=
    congrArg Punch.Group.name (Arena.alloc_cell_of_lt (hexact.lt pg hpg))
  have hnew : ((s.groupCreate group nMembers permanent).groups.cell s.groups.next).name = group.take Punch.nameSize :=
    congrArg Punch.Group.name Arena.alloc_cell_next
  have hfresh (pg : Nat) (hpg : pg ∈ s.groupList) : (s.groups.cell pg).name ≠ group.take Punch.nameSize := fun heq =>
    List.find?_eq_none.mp hnone pg hpg (beq_iff_eq.mpr heq)
  refine ⟨fun pg hpg pg' hpg' hname => ?_, h.users, fun pc hpc pg hpg => ?_⟩
  · rcases List.mem_cons.mp hpg with rfl | hpg
    · rcases List.mem_cons.mp hpg' with rfl | hpg'
      · rfl
      · rw [hnew, hold pg' hpg'] at hname
        exact absurd hname.symm (hfresh pg' hpg')
    · rcases List.mem_cons.mp hpg' with rfl | hpg'
      · rw [hnew, hold pg hpg] at hname
        exact absurd hname (hfresh pg hpg)
      · rw [hold pg hpg, hold pg' hpg'] at hname
        exact h.distinct pg hpg pg' hpg' hname
  · rw [hold pg (alive hexact hpc hpg)]
    exact h.groups pc hpc pg hpg

theorem groupDirAdd_cell (h : Punch.Exact s) (dir : List Text) {pg : Nat} (hpg : pg ∈ s.groupList) :
    (s.groupDirAdd dir).groups.cell pg = s.groups.cell pg := by
  induction dir generalizing s with
  | nil => rfl
  | cons name dir ih =>
    rw [Punch.groupDirAdd_cons]
    split
    · have hcreate : Punch.Exact (s.groupCreate name 1 true) := h.groupCreate name rfl
      rw [ih hcreate (List.mem_cons_of_mem _ hpg)]
      exact Arena.alloc_cell_of_lt (h.lt pg hpg)
    · exact ih h hpg

theorem Labelled.groupDirAdd (h : Labelled s) (hexact : Punch.Exact s) (dir : List Text) :
    Labelled (s.groupDirAdd dir) := by
  induction dir generalizing s with
  | nil => exact h
  | cons name dir ih =>
    rw [Punch.groupDirAdd_cons]
    split
    · next hnew => exact ih (h.groupCreate hexact hnew.2 1 true) (hexact.groupCreate name rfl)
    · exact ih h hexact

/-- The group of an introduction has its name, which is cut off. -/
theorem groupNamed_name {group : Text} {pg : Nat} (h : s.groupNamed group = some pg) :
    (s.groups.cell pg).name = group.take Punch.nameSize := by
  have hfound : ((s.groups.cell pg).name == group.take Punch.nameSize) = true :=
    @List.find?_some _ (fun pg => (s.groups.cell pg).name == group.take Punch.nameSize) pg s.groupList h
  exact beq_iff_eq.mp hfound

theorem Labelled.groupFor (h : Labelled s) (hexact : Punch.Exact s) (i : Intro) (env : Surroundings) :
    Labelled (s.groupFor i env).1 ∧ (s.groupFor i env).1.groupNamed i.group = some (s.groupFor i env).2 := by
  unfold Server.groupFor
  cases hnamed : (s.groupDirAdd env.dir).groupNamed i.group with
  | some pg => exact ⟨h.groupDirAdd hexact env.dir, hnamed⟩
  | none =>
    exact ⟨(h.groupDirAdd hexact env.dir).groupCreate (hexact.groupDirAdd env.dir) hnamed 0 false,
      Punch.groupNamed_groupCreate _ _ _ _⟩

/-- A changed client is an old one, or has names of its own. -/
theorem mem_changeFirst {f : Client → Option Client} {clients : List Client} {c : Client}
    (h : c ∈ Punch.changeFirst sock f clients) : c ∈ clients ∨ ∃ pc ∈ clients, c ∈ f pc := by
  induction clients with
  | nil => cases h
  | cons pc clients ih =>
    rw [Punch.changeFirst] at h
    split at h
    · rcases List.mem_append.mp h with h | h
      · exact .inr ⟨pc, List.mem_cons_self, Option.mem_toList.mp h⟩
      · exact .inl (List.mem_cons_of_mem pc h)
    · rcases List.mem_cons.mp h with rfl | h
      · exact .inl List.mem_cons_self
      · rcases ih h with hmem | ⟨pc', hpc', hc⟩
        · exact .inl (List.mem_cons_of_mem pc hmem)
        · exact .inr ⟨pc', List.mem_cons_of_mem pc hpc', hc⟩

theorem Labelled.joined {mid joined : Server} {pg : Nat} {i : Intro} (h : Labelled mid)
    (hnamed : mid.groupNamed i.group = some pg) (huserOk : nameOk i.user = true) (hgroupOk : nameOk i.group = true)
    (hjoin : mid.groupJoin pg i.user i.nxtAddr = some joined) :
    Labelled (joined.change sock fun pc => some
      { pc with user := i.user, nxtAddr := i.nxtAddr, status := "online".toList, group := some pg }) := by
  have hsame : joined.groupList = mid.groupList ∧ joined.clients = mid.clients ∧
      ∀ pg, (joined.groups.cell pg).name = (mid.groups.cell pg).name := by
    unfold Server.groupJoin at hjoin
    split at hjoin
    · obtain rfl := Option.some.inj hjoin
      exact ⟨rfl, rfl, Arena.modify_proj Punch.Group.name fun _ => rfl⟩
    · obtain ⟨-, hjoin⟩ := Option.ite_none_right_eq_some.mp hjoin
      obtain rfl := Option.some.inj hjoin
      exact ⟨rfl, rfl, fun _ => rfl⟩
  refine h.congr (fun pg hpg => hsame.1 ▸ hpg) hsame.2.2 fun c hc => ?_
  rcases mem_changeFirst hc with hc | ⟨pc, -, hc⟩
  · exact .inl (hsame.2.1 ▸ hc)
  · obtain rfl := Option.some.inj hc
    refine .inr ⟨isNameChar_of_nameOk huserOk, fun pg' hpg ch hch => ?_⟩
    obtain rfl := Option.some.inj hpg
    change ch ∈ (mid.groups.cell pg).name at hch
    rw [groupNamed_name hnamed] at hch
    exact isNameChar_of_nameOk hgroupOk ch (List.mem_of_mem_take hch)

theorem Labelled.intro (h : Labelled s) (hexact : Punch.Exact s) {i : Intro} {env : Surroundings} {goesOn : Bool}
    (hintro : s.intro sock i env = some (s', goesOn)) : Labelled s' := by
  unfold Server.intro at hintro
  split at hintro
  case isFalse =>
    obtain ⟨rfl, -⟩ := Prod.mk.inj (Option.some.inj hintro)
    exact h
  case isTrue hnames =>
    obtain ⟨huserOk, hgroupOk⟩ := (Bool.and_eq_true _ _).mp hnames
    obtain ⟨hfor, hnamed⟩ := h.groupFor hexact i env
    generalize hfound : s.groupFor i env = found at hfor hnamed
    unfold Server.groupFor at hfound
    dsimp only at hintro
    cases hgroup : (s.groupDirAdd env.dir).groupNamed i.group with | none | some pg =>
    rw [hgroup] at hfound hintro
    obtain rfl := hfound
    dsimp only at hintro hfor hnamed
    split at hintro
    · split at hintro
      · obtain ⟨rfl, -⟩ := Prod.mk.inj (Option.some.inj hintro)
        exact hfor
      · next joined hjoin =>
        obtain ⟨-, heq⟩ := Option.ite_none_right_eq_some.mp hintro
        obtain ⟨rfl, -⟩ := Prod.mk.inj (Option.some.inj heq)
        exact hfor.joined hnamed huserOk hgroupOk hjoin
    · obtain ⟨rfl, -⟩ := Prod.mk.inj (Option.some.inj hintro)
      exact hfor

theorem Labelled.receiveTcpTraffic (h : Labelled s) (hexact : Punch.Exact s) {read : Option Text} {env : Surroundings}
    {goesOn : Bool} (htraffic : s.receiveTcpTraffic sock read env = some (s', goesOn)) : Labelled s' := by
  have hsame {g : Bool} (heq : some (s, g) = some (s', goesOn)) : Labelled s' := by
    obtain ⟨rfl, -⟩ := Prod.mk.inj (Option.some.inj heq)
    exact h
  unfold Server.receiveTcpTraffic at htraffic
  split at htraffic
  · exact hsame htraffic
  · exact hsame htraffic
  · next pc buf hpc =>
    split at htraffic
    · exact hsame htraffic
    · exact hsame htraffic
    · obtain ⟨rfl, -⟩ := Prod.mk.inj (Option.some.inj htraffic)
      refine h.congr (fun _ hpg => hpg) (fun _ => rfl) fun c hc => ?_
      rcases mem_changeFirst hc with hc | ⟨pc', hpc', hc⟩
      · exact .inl hc
      · obtain rfl := Option.some.inj hc
        exact .inr ⟨h.users pc' hpc', h.groups pc' hpc'⟩
    · exact hsame (Option.ite_none_right_eq_some.mp htraffic).2
    · exact hsame htraffic
    · split at htraffic
      · exact hsame htraffic
      · exact h.intro hexact htraffic

theorem Labelled.closeConnection (h : Labelled s) (hclose : s.closeConnection sock = some s') : Labelled s' := by
  unfold Server.closeConnection at hclose
  split at hclose
  · cases hclose
  · next pc hpc =>
    obtain ⟨mid, hdelete, rfl⟩ := Option.map_eq_some_iff.mp hclose
    have hmod (pg : Nat) := Arena.modify_proj (a := s.groups) (r := pg) (f := .add (-1)) Punch.Group.name fun _ => rfl
    have hclients (clients : List Client) (heq : clients = s.clients) :
        ∀ c ∈ Punch.changeFirst sock (fun _ => none) clients,
        c ∈ s.clients ∨ (∀ ch ∈ c.user, isNameChar ch) ∧
        ∀ pg ∈ c.group, ∀ ch ∈ (s.groups.cell pg).name, isNameChar ch := by
      intro c hc
      rcases mem_changeFirst hc with hc | ⟨_, -, hc⟩
      · exact .inl (heq ▸ hc)
      · cases hc
    obtain ⟨-, rfl⟩ | ⟨pg, -, -, rfl | ⟨-, rfl⟩⟩ := Punch.groupDeleteMember_cases hdelete
    · exact h.congr (fun _ hpg => hpg) (fun _ => rfl) (hclients _ rfl)
    · exact h.congr (fun _ hpg => hpg) (hmod pg) (hclients _ rfl)
    · exact h.congr (fun _ hpg => List.mem_of_mem_erase hpg) (hmod pg) (hclients _ rfl)

/-- **The step lemma.** -/
theorem Labelled.step (h : Labelled s) (hexact : Punch.Exact s) {e : Punch.Event} (hreturning : NotReturning s e)
    (hstep : Punch.step s e = some s') : Labelled s' := by
  cases e with
  | connect sock id =>
    obtain rfl := Option.some.inj hstep
    refine h.congr (fun _ hpg => hpg) (fun _ => rfl) fun c hc => ?_
    rcases List.mem_cons.mp hc with rfl | hc
    · exact .inr ⟨List.forall_mem_nil _, fun _ hpg => by cases hpg⟩
    · exact .inl hc
  | traffic sock read env =>
    obtain ⟨⟨mid, goesOn⟩, htraffic, hclose⟩ := Option.bind_eq_some_iff.mp hstep
    have hmid := h.receiveTcpTraffic hexact htraffic
    dsimp only at hclose
    split at hclose
    · exact Option.some.inj hclose ▸ hmid
    · exact hmid.closeConnection hclose
  | udp id user group tag dir =>
    have hdir := h.groupDirAdd hexact dir
    have hsame (heq : some (s.groupDirAdd dir) = some s') : Labelled s' := Option.some.inj heq ▸ hdir
    change s.receiveUdpPunch id user group tag dir = some s' at hstep
    unfold Server.receiveUdpPunch at hstep
    dsimp only at hstep
    split at hstep
    · split at hstep
      · exact hsame (Option.ite_none_right_eq_some.mp hstep).2
      · exact hsame hstep
    · exact hsame hstep

/-- **The names of the groups in every state of an orderly run.** -/
theorem labelled_of_run {es : List Roster.Event} {ro : Session} (hok : Run.Along Roster.step Orderly {} es)
    (hrun : Run.run Roster.step {} es = some ro) : Labelled ro.server := by
  have hstep {ro ro' : Session} {e : Roster.Event} (hok : Orderly ro e) (hstep : Roster.step ro e = some ro')
      (h : Punch.Exact ro.server ∧ Labelled ro.server) : Punch.Exact ro'.server ∧ Labelled ro'.server := by
    have hserver : Punch.step ro.server e.event = some ro'.server := by
      rw [← Roster.step_server, hstep]
      rfl
    exact ⟨h.1.step hok.1 hserver, h.2.step h.1 hok.1 hserver⟩
  have hboth := @Run.run_invariant _ _ _ _ _ _ (fun ro => Punch.Exact ro.server ∧ Labelled ro.server) hstep es hok hrun
    ⟨Punch.exact_init, labelled_init⟩
  exact hboth.2

end Labels

/-! ## The request is taken apart -/

section Requests
variable (calcIpbits : Text → BitVec 32) (matchIpaddr : BitVec 32 → BitVec 16 → BitVec 64 × BitVec 16) {c : PunchClient}
  {user group pubkeystr : Text} {ip : BitVec 32} {port : BitVec 16}

/-- The member has the address of the request. -/
def PunchClient.introduced (c : PunchClient) (calcIpbits : Text → BitVec 32) (pm : Nat) (ip : BitVec 32)
    (port : BitVec 16) (pubkey : Text) : PunchClient :=
  { c with
    peers := Function.update c.peers pm ((c.peers pm).set calcIpbits (inetNtoa ip) port pubkey)
    corresponding := c.corresponding + 1 }

theorem stgsep_of_end {d : Char} {s : Text} (h : d ∉ s) : stgsep d s = (s, []) := by
  have hall : ∀ c ∈ s, decide (c ≠ d) := fun c hc => decide_eq_true fun heq => h (heq ▸ hc)
  unfold stgsep
  rw [List.takeWhile_eq_self_iff.mpr hall, List.dropWhile_eq_nil_iff.mpr hall]
  rfl

theorem digits_separate {n : Nat} {d : Char} (hd : ¬ isDigit d) : d ∉ Nat.toDigits 10 n := fun hmem =>
  hd (Json.isDigit_of_mem_toDigits hmem)

/-- **A request is taken apart into what it was made of.** -/
theorem getCorrespondentAddress_request (huser : '/' ∉ user) (hgroup : ' ' ∉ group) (hkey : '\n' ∉ pubkeystr)
    (hport : port ≠ 0) :
    (group ≠ c.groupname →
      getCorrespondentAddress calcIpbits matchIpaddr c (requestText user group ip port pubkeystr) = (none, c)) ∧
    ∀ pm, group = c.groupname → memberFind c.members user = some pm →
      getCorrespondentAddress calcIpbits matchIpaddr c (requestText user group ip port pubkeystr) =
        (some pm, c.introduced calcIpbits pm ip port pubkeystr) := by
  have hcolon : ':' ∉ inetNtoa ip := fun hmem => by
    rcases mem_inetNtoa hmem with hdigit | hdot
    · exact absurd hdigit (by decide)
    · exact absurd hdot (by decide)
  have hportstr : BitVec.ofNat 16 (strtoul (Nat.toDigits 10 port.toNat)).1 = port := by
    have hlt := port.isLt
    have hread : strtoul (Nat.toDigits 10 port.toNat ++ []) = (port.toNat, []) :=
      strtoul_toDigits (by omega) stops_nil
    rw [List.append_nil] at hread
    rw [hread, BitVec.ofNat_toNat, BitVec.setWidth_eq]
  unfold getCorrespondentAddress requestText
  rw [stgsep_of_not_mem huser]
  dsimp only
  rw [stgsep_of_not_mem hgroup]
  dsimp only
  rw [stgsep_of_not_mem hcolon]
  dsimp only
  rw [stgsep_of_not_mem (digits_separate (by decide))]
  dsimp only
  rw [stgsep_of_end hkey, hportstr]
  constructor
  · intro hne
    exact if_neg fun h => hne h.1
  · intro pm heq hfind
    rw [if_pos ⟨heq, hport⟩, hfind]
    rfl

theorem getCorrespondentAddress_deny (huser : '/' ∉ user) (hgroup : ' ' ∉ group) :
    getCorrespondentAddress calcIpbits matchIpaddr c (user ++ '/' :: group) = (none, c) := by
  unfold getCorrespondentAddress
  rw [stgsep_of_not_mem huser]
  dsimp only
  rw [stgsep_of_end hgroup]
  exact if_neg fun h => h.2 rfl

end Requests

/-! ## Who is introduced to whom -/

section Run
variable (calcIpbits : Text → BitVec 32) (matchIpaddr : BitVec 32 → BitVec 16 → BitVec 64 × BitVec 16) {s : Server}
  {keys keys' : Int → Text} {ip : BitVec 32} {port : BitVec 16} {buf : Text} {dir : List Text} {sock : Int}
  {text : Text}
  {pc : Client}

/-- What a datagram did that led to a request. -/
theorem receiveUdpPunch_cases
    (hsent : receiveUdpPunch s keys ip port buf dir = some (some (sock, text), keys'))
    (hpc : s.findById (readPunch buf).id = some pc) :
    ∃ pg target, pc.group = some pg ∧ target ∈ s.clients ∧ target.sock = sock ∧ target.user = (readPunch buf).user ∧
      ((readPunch buf).tag = "deny".toList ∧
          text = '!' :: (pc.user ++ '/' :: ((s.groupDirAdd dir).groups.cell pg).name) ∨
        (readPunch buf).tag ≠ "deny".toList ∧ ∃ sign, text =
          sign :: requestText pc.user ((s.groupDirAdd dir).groups.cell pg).name ip port (keys' pc.sock)) := by
  have hclients := Punch.clients_groupDirAdd s dir
  have hfind : (s.groupDirAdd dir).findById (readPunch buf).id = some pc := by
    unfold Server.findById at hpc ⊢
    rwa [hclients]
  unfold receiveUdpPunch at hsent
  dsimp only at hsent
  rw [hfind] at hsent
  split at hsent
  · next pc' _ target hpc' _ htarget =>
    obtain rfl := Option.some.inj hpc'
    split at hsent
    · cases hsent
    · next pg hgroup =>
      split at hsent
      · obtain ⟨⟨sent, pubkeystr⟩, hserv, heq⟩ := Option.map_eq_some_iff.mp hsent
        obtain ⟨hmap, rfl⟩ := Prod.mk.inj heq
        obtain ⟨text', rfl, hpair⟩ := Option.map_eq_some_iff.mp hmap
        obtain ⟨rfl, rfl⟩ := Prod.mk.inj hpair
        have htargetMem := List.mem_of_find?_eq_some htarget
        have htargetName := List.find?_some htarget
        rw [Bool.and_eq_true, beq_iff_eq] at htargetName
        refine ⟨pg, target, hgroup, hclients ▸ htargetMem, rfl, htargetName.1, ?_⟩
        rw [Function.update_self]
        unfold servpunch at hserv
        split at hserv
        · next htag =>
          obtain ⟨-, heq⟩ := Option.ite_none_right_eq_some.mp hserv
          obtain ⟨htext, rfl⟩ := Prod.mk.inj (Option.some.inj heq)
          refine .inr ⟨?_, _, (Option.some.inj htext).symm⟩
          rcases htag with htag | htag
          · rw [htag]
            decide
          · rw [htag]
            decide
        · split at hserv
          · next htag =>
            obtain ⟨htext, -⟩ := Prod.mk.inj (Option.some.inj hserv)
            exact .inl ⟨htag, (Option.some.inj htext).symm⟩
          · obtain ⟨htext, -⟩ := Prod.mk.inj (Option.some.inj hserv)
            cases htext
      · cases hsent
  · cases hsent

theorem slash_not_mem {name : Text} (h : ∀ ch ∈ name, isNameChar ch) : '/' ∉ name ∧ ' ' ∉ name :=
  ⟨fun hmem => absurd (h _ hmem) (by decide), fun hmem => absurd (h _ hmem) (by decide)⟩

theorem newline_not_mem_digits (key : List (BitVec 8)) : '\n' ∉ Hex.digits key := by
  have hdigit : ∀ n < 16, Hex.hexbyte n ≠ '\n' := by decide
  intro hmem
  obtain ⟨b, -, hb⟩ := List.mem_flatMap.mp hmem
  rcases List.mem_cons.mp hb with heq | hb
  · exact hdigit _ (Hex.nibble_lt _) heq.symm
  · exact hdigit _ (Hex.nibble_lt _) (List.mem_singleton.mp hb).symm

/-- The client that gets a request is `target`, and its member list is what it made of the messages of the server. -/
structure Ready (ro : Session) (target : Client) (pg : Nat) (c : PunchClient) : Prop where
  mem : target ∈ ro.server.clients
  group : target.group = some pg
  groupname : c.groupname = (ro.server.groups.cell pg).name
  received : ∃ kept late, (ro.inbox target.sock).late = some late ∧ kept <:+ (ro.inbox target.sock).early ∧
    receive noMembers (kept ++ late) = some c.members

end Run

/-- The key of Alice, and her datagram to Bob. -/
def aliceKey : List (BitVec 8) := List.replicate 32 0x5a

def aliceDatagram : Text :=
  (Roster.atChess.server.clients.find? fun pc => pc.user = "alice".toList).elim [] Client.id ++ " bob/chess ".toList ++
    Hex.digits aliceKey ++ " initiate".toList

/-- What the server makes of it, the datagram coming from 10.0.0.7, port 6777. -/
def aliceRequest : Option (Option (Int × Text) × (Int → Text)) :=
  receiveUdpPunch Roster.atChess.server (fun _ => []) 0x0a000007 6777 aliceDatagram []

end NXTServices.Holepunch
