import NXTServices.Lib.Links
import NXTServices.Punch

/-!
# The member list of a punch client: `NXTsync/NXTmembers.h` and `NXTsync/punch-client.c`

* `memberAdd`, `memberDel`, `memberFind` : the doubly linked list of the members, with names cut off to 16 bytes;
* `tcpIo` : the lines of the server;
* `Line`, `traffic` : lines that say who comes and who goes;
* `Reflects` : the list has exactly the members that the lines leave;
* `reflects_iff` : it has after each line when no name that comes is longer than 16 bytes.
-/

namespace NXTServices.Members
open Links (Linked IsList)
open Punch (nameSize nxtAddrSize statusSize stgsep)

/-! ## The list -/

/-- The part of `member_t` that comes from the server. -/
structure Member where
  name : Text
  nxtAddr : Text
  status : Text
deriving DecidableEq

abbrev MemberList := Linked Member

/-- `stgncpy` into a field of `n` bytes. -/
def stgncpy (src : Text) (n : Nat) : Text := src.take (n - 1)

def memberFind (s : MemberList) (name : Text) : Option Nat := s.find fun m => m.name == name

def memberCreate (s : MemberList) (name nxtAddr status : Text) : MemberList :=
  s.pushFront
    { name := stgncpy name (nameSize + 1)
      nxtAddr := stgncpy nxtAddr (nxtAddrSize + 1)
      status := stgncpy status (statusSize + 1) }

def memberSetStatus (s : MemberList) (pm : Nat) (status : Text) : MemberList :=
  s.setVal pm fun m => { m with status := stgncpy status (statusSize + 1) }

/-- The name of a member is the text up to the first space. -/
def memberName (s : Text) : Text := (stgsep ' ' s).1

def memberAdd (list : MemberList) (s : Text) : MemberList :=
  let (name, s) := stgsep ' ' s
  let (nxtAddr, s) := stgsep ' ' s
  let status := (stgsep ']' s).1.dropWhile fun c => c = ' ' ∨ c = '['
  match memberFind list name with
  | some pm => memberSetStatus list pm status
  | none => memberCreate list name nxtAddr status

/-- `clear_pending_sync_files` and `punch_cancel` leave the list as it is. -/
def memberDel (list : MemberList) (s : Text) : MemberList :=
  match memberFind list (memberName s) with
  | some pm => list.unlink pm
  | none => list

/-! ## The lines -/

def isBreak (c : Char) : Bool := c = '\n' ∨ c = '\r'

/-- `stgsep(&line, "\n\r")`. -/
def nextLine (line : Text) : Text × Text :=
  (line.takeWhile fun c => !isBreak c, (line.dropWhile fun c => !isBreak c).drop 1)

theorem nextLine_snd_lt {line : Text} (h : line ≠ []) : (nextLine line).2.length < line.length := by
  have hle : (line.dropWhile fun c => !isBreak c).length ≤ line.length := (List.dropWhile_suffix _).length_le
  have hpos := List.length_pos_iff.mpr h
  unfold nextLine
  rw [List.length_drop]
  omega

/-- Lines about members; what the client does on a punch request is not part of the model. -/
def tcpIo (list : MemberList) (line : Text) : Option MemberList :=
  if line = [] then some list
  else
    match (nextLine line).1 with
    | '+' :: s => tcpIo (memberAdd list s) (nextLine line).2
    | '-' :: s => tcpIo (memberDel list s) (nextLine line).2
    | [] => none
    | c :: _ => if c = '>' ∨ c = '<' ∨ c = '!' then none else some list
termination_by line.length
decreasing_by
  all_goals exact nextLine_snd_lt ‹_›

/-- A line about a member that comes or goes, without its sign and the end of the line. -/
structure Line where
  joins : Bool
  text : Text
  text_ok : ∀ c ∈ text, !isBreak c

def Line.name (l : Line) : Text := memberName l.text

def Line.bytes (l : Line) : Text := (if l.joins then '+' else '-') :: (l.text ++ ['\n'])

def traffic (lines : List Line) : Text := lines.flatMap Line.bytes

def processLine (list : MemberList) (l : Line) : MemberList :=
  if l.joins then memberAdd list l.text else memberDel list l.text

/-- No member. -/
def noMembers : MemberList := { nodes := { cell := fun _ => { val := { name := [], nxtAddr := [], status := [] } } } }

/-- What the latest line about a name says. -/
def latest (lines : List Line) (name : Text) : Option Bool :=
  (lines.reverse.find? fun l => l.name = name).map Line.joins

/-- The names on the list, in order. -/
def names (s : MemberList) (rs : List Nat) : List Text := rs.map fun r => (s.val r).name

/-- A doubly linked list with one member for each name whose latest line says that it comes, and no other one. -/
def Reflects (lines : List Line) (s : MemberList) : Prop :=
  ∃ rs, IsList s rs ∧ ∀ name, (names s rs).count name = if latest lines name = some true then 1 else 0

/-! ## The loop -/

theorem nextLine_bytes (l : Line) (rest : Text) :
    nextLine (l.bytes ++ rest) = ((if l.joins then '+' else '-') :: l.text, rest) := by
  have hsign : !isBreak (if l.joins then '+' else '-') := by cases l.joins <;> rfl
  have hline : ∀ c ∈ (if l.joins then '+' else '-') :: l.text, !isBreak c :=
    List.forall_mem_cons.mpr ⟨hsign, l.text_ok⟩
  have hbytes : l.bytes ++ rest = ((if l.joins then '+' else '-') :: l.text) ++ '\n' :: rest := by simp [Line.bytes]
  unfold nextLine
  rw [hbytes, List.takeWhile_append_of_pos hline, List.dropWhile_append_of_pos hline]
  simp [isBreak]

theorem tcpIo_traffic (list : MemberList) (lines : List Line) :
    tcpIo list (traffic lines) = some (lines.foldl processLine list) := by
  induction lines generalizing list with
  | nil =>
    unfold tcpIo
    exact if_pos rfl
  | cons l lines ih =>
    have htraffic : traffic (l :: lines) = l.bytes ++ traffic lines := List.flatMap_cons
    unfold tcpIo
    rw [htraffic, if_neg (by simp [Line.bytes]), nextLine_bytes, List.foldl_cons, ← ih, processLine]
    cases l.joins with
    | true => rfl
    | false => rfl

/-! ## The names -/

section
variable {s : MemberList} {rs : List Nat} {name text : Text} {lines : List Line}

theorem memberFind_cases (h : IsList s rs) (name : Text) :
    (∃ l₁ r l₂, rs = l₁ ++ r :: l₂ ∧ (s.val r).name = name ∧ name ∉ names s l₁ ∧ memberFind s name = some r) ∨
      (name ∉ names s rs ∧ memberFind s name = none) := by
  unfold memberFind
  rw [h.find_eq]
  cases hfind : rs.find? fun r => (s.val r).name == name with
  | none =>
    refine .inr ⟨fun hmem => ?_, rfl⟩
    obtain ⟨r, hr, hname⟩ := List.mem_map.mp hmem
    exact List.find?_eq_none.mp hfind r hr (beq_iff_eq.mpr hname)
  | some r =>
    obtain ⟨hname, l₁, l₂, hrs, hfront⟩ := List.find?_eq_some_iff_append.mp hfind
    refine .inl ⟨l₁, r, l₂, hrs, beq_iff_eq.mp hname, fun hmem => ?_, rfl⟩
    obtain ⟨q, hq, hqname⟩ := List.mem_map.mp hmem
    simpa [hqname] using hfront q hq

/-- A member of that name stays; a new one comes first, its name cut off. -/
theorem memberAdd_names (h : IsList s rs) (text : Text) :
    ∃ rs', IsList (memberAdd s text) rs' ∧ names (memberAdd s text) rs' =
      if memberName text ∈ names s rs then names s rs else stgncpy (memberName text) (nameSize + 1) :: names s rs := by
  unfold memberAdd
  rcases memberFind_cases h (memberName text) with ⟨l₁, r, l₂, hrs, hname, -, hfind⟩ | ⟨hnew, hfind⟩
  · have hmem : memberName text ∈ names s rs := by
      refine List.mem_map.mpr ⟨r, ?_, hname⟩
      rw [hrs]
      exact List.mem_append_right _ List.mem_cons_self
    rw [if_pos hmem]
    dsimp only
    rw [show (stgsep ' ' text).1 = memberName text from rfl, hfind]
    dsimp only [memberSetStatus]
    refine ⟨rs, h.setVal r _, List.map_congr_left fun q _ => ?_⟩
    by_cases hq : q = r
    · subst hq
      rw [Links.Linked.setVal_val_self]
    · rw [Links.Linked.setVal_val_of_ne hq]
  · rw [if_neg hnew]
    dsimp only
    rw [show (stgsep ' ' text).1 = memberName text from rfl, hfind]
    refine ⟨_, h.pushFront _, ?_⟩
    unfold memberCreate names
    rw [List.map_cons, Links.Linked.pushFront_val_self]
    refine congrArg _ (List.map_congr_left fun q hq => ?_)
    rw [Links.Linked.pushFront_val_of_lt (h.lt q hq)]

/-- The first member of that name goes. -/
theorem memberDel_names (h : IsList s rs) (text : Text) :
    ∃ rs', IsList (memberDel s text) rs' ∧ names (memberDel s text) rs' = (names s rs).erase (memberName text) := by
  unfold memberDel
  rcases memberFind_cases h (memberName text) with ⟨l₁, r, l₂, hrs, hname, hfront, hfind⟩ | ⟨hnew, hfind⟩
  · rw [hfind]
    subst hrs
    refine ⟨_, h.unlink, ?_⟩
    have hsplit : names s (l₁ ++ r :: l₂) = names s l₁ ++ memberName text :: names s l₂ := by
      unfold names
      rw [List.map_append, List.map_cons, hname]
    rw [hsplit, List.erase_append_right _ hfront, List.erase_cons_head]
    unfold names
    rw [List.map_append]
    simp only [Links.Linked.unlink_val]
  · rw [hfind]
    exact ⟨rs, h, (List.erase_of_not_mem hnew).symm⟩

/-- The names after one line. -/
def nameStep (present : List Text) (l : Line) : List Text :=
  if l.joins then if l.name ∈ present then present else stgncpy l.name (nameSize + 1) :: present
  else present.erase l.name

theorem processLine_names (h : IsList s rs) (l : Line) :
    ∃ rs', IsList (processLine s l) rs' ∧ names (processLine s l) rs' = nameStep (names s rs) l := by
  unfold processLine nameStep
  split
  · exact memberAdd_names h l.text
  · exact memberDel_names h l.text

/-- **The list is well formed after any lines**, and its names are those that `nameStep` leaves. -/
theorem foldl_names (lines : List Line) :
    ∃ rs, IsList (lines.foldl processLine noMembers) rs ∧
      names (lines.foldl processLine noMembers) rs = lines.foldl nameStep [] := by
  induction lines using List.reverseRecOn with
  | nil => exact ⟨[], Links.isList_nil rfl, rfl⟩
  | append_singleton lines l ih =>
    obtain ⟨rs, hlist, hnames⟩ := ih
    rw [List.foldl_append, List.foldl_append, ← hnames]
    exact processLine_names hlist l

/-- No name on the list is longer than 16 bytes. -/
theorem length_le_of_mem (lines : List Line) : ∀ name ∈ lines.foldl nameStep [], name.length ≤ nameSize := by
  induction lines using List.reverseRecOn with
  | nil => exact List.forall_mem_nil _
  | append_singleton lines l ih =>
    rw [List.foldl_append]
    show ∀ name ∈ nameStep _ l, _
    unfold nameStep
    intro name hname
    split at hname
    · split at hname
      · exact ih name hname
      · rcases List.mem_cons.mp hname with rfl | hname
        · exact List.length_take_le _ _
        · exact ih name hname
    · exact ih name (List.mem_of_mem_erase hname)

theorem latest_concat (lines : List Line) (l : Line) (name : Text) :
    latest (lines ++ [l]) name = if l.name = name then some l.joins else latest lines name := by
  unfold latest
  rw [List.reverse_append, List.reverse_singleton, List.singleton_append, List.find?_cons]
  by_cases hname : l.name = name
  · rw [if_pos hname, decide_eq_true hname]
    rfl
  · rw [if_neg hname, decide_eq_false hname]

/-- While the names that come are not cut off, each is on the list once or not at all. -/
theorem foldl_nameStep (h : ∀ l ∈ lines, l.joins → l.name.length ≤ nameSize) :
    (lines.foldl nameStep []).Nodup ∧ ∀ name, name ∈ lines.foldl nameStep [] ↔ latest lines name = some true := by
  induction lines using List.reverseRecOn with
  | nil => exact ⟨List.nodup_nil, fun name => iff_of_false List.not_mem_nil (by simp [latest])⟩
  | append_singleton lines l ih =>
    obtain ⟨hnodup, hmem⟩ := ih fun l' hl' => h l' (List.mem_append_left _ hl')
    have hlast := h l (List.mem_append_right _ List.mem_cons_self)
    simp only [List.foldl_append, List.foldl_cons, List.foldl_nil, latest_concat]
    generalize lines.foldl nameStep [] = present at hnodup hmem
    unfold nameStep
    cases hjoins : l.joins with
    | true =>
      have hname : stgncpy l.name (nameSize + 1) = l.name := List.take_of_length_le (hlast hjoins)
      rw [if_pos rfl, hname]
      split
      · next hthere =>
        refine ⟨hnodup, fun name => ?_⟩
        split
        · next heq => exact iff_of_true (heq ▸ hthere) rfl
        · exact hmem name
      · next hnew =>
        refine ⟨List.nodup_cons.mpr ⟨hnew, hnodup⟩, fun name => ?_⟩
        rw [List.mem_cons]
        split
        · next heq => exact iff_of_true (.inl heq.symm) rfl
        · next hne => rw [or_iff_right (Ne.symm hne), hmem]
    | false =>
      rw [if_neg Bool.false_ne_true]
      refine ⟨hnodup.erase _, fun name => ?_⟩
      rw [hnodup.mem_erase_iff, hmem]
      split
      · next heq => exact iff_of_false (fun hboth => hboth.1 heq.symm) (by simp)
      · next hne => exact and_iff_right (Ne.symm hne)

theorem reflects_of_short (h : ∀ l ∈ lines, l.joins → l.name.length ≤ nameSize) :
    Reflects lines (lines.foldl processLine noMembers) := by
  obtain ⟨rs, hlist, hnames⟩ := foldl_names lines
  obtain ⟨hnodup, hmem⟩ := foldl_nameStep h
  refine ⟨rs, hlist, fun name => ?_⟩
  rw [hnames, hnodup.count]
  simp only [hmem]

theorem short_of_reflects {l : Line} (hjoins : l.joins)
    (h : Reflects (lines ++ [l]) ((lines ++ [l]).foldl processLine noMembers)) : l.name.length ≤ nameSize := by
  obtain ⟨rs, hlist, hcount⟩ := h
  obtain ⟨rs', hlist', hnames⟩ := foldl_names (lines ++ [l])
  obtain rfl := hlist.unique hlist'
  have hone := hcount l.name
  rw [latest_concat, if_pos rfl, hjoins, if_pos rfl, hnames] at hone
  have hmem := List.count_pos_iff.mp (hone ▸ Nat.zero_lt_one)
  exact length_le_of_mem _ _ hmem

end

/-- **When the list follows the lines**, after each of them: no name that comes is longer than its field. -/
theorem reflects_iff (lines : List Line) :
    (∀ pre, pre <+: lines → ∃ s, tcpIo noMembers (traffic pre) = some s ∧ Reflects pre s) ↔
      ∀ l ∈ lines, l.joins → l.name.length ≤ nameSize := by
  constructor
  · intro h l hl hjoins
    obtain ⟨pre, post, rfl⟩ := List.append_of_mem hl
    obtain ⟨s, hrun, hreflects⟩ := h (pre ++ [l]) ⟨post, by simp⟩
    rw [tcpIo_traffic] at hrun
    obtain rfl := Option.some.inj hrun
    exact short_of_reflects hjoins hreflects
  · rintro h pre ⟨post, rfl⟩
    exact ⟨_, tcpIo_traffic _ _, reflects_of_short fun l hl => h l (List.mem_append_left _ hl)⟩

/-- A member with a name of 17 letters comes, twice. -/
def longName : Line where
  joins := true
  text := "abcdefghijklmnopq 1 [online]".toList
  text_ok := List.all_eq_true.mp (by decide)

/-- It is on the list twice, and under a shorter name. -/
theorem not_forall_reflects : ¬ ∀ lines : List Line, ∃ s,
    tcpIo noMembers (traffic lines) = some s ∧ Reflects lines s := by
  intro h
  obtain ⟨s, hrun, hreflects⟩ := h ([longName] ++ [longName])
  rw [tcpIo_traffic] at hrun
  obtain rfl := Option.some.inj hrun
  exact absurd (short_of_reflects rfl hreflects) (by decide)

end NXTServices.Members
