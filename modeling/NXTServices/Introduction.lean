import NXTServices.Punch

/-!
# Introductions that are rejected: `intro` of `NXTsync/punch.c`

* `Answer`, `introAnswer` : what a client is told;
* `groupFor` : the group that is found or created before the token is checked;
* `SameGroups` : the list of groups and what each of them counts;
* `intro_rejected` : what is left of a rejected introduction;
* `sameGroups_iff` : it leaves no trace when the group is there already.
-/

namespace NXTServices.Punch

inductive Answer where
  | badName
  | badToken
  | memberExists
  | ok
deriving DecidableEq

section
variable (s : Server) (i : Intro) (env : Surroundings)

/-- The group of an introduction, which is created if it is not found. -/
def Server.groupFor : Server × Nat :=
  match (s.groupDirAdd env.dir).groupNamed i.group with
  | some pg => (s.groupDirAdd env.dir, pg)
  | none => ((s.groupDirAdd env.dir).groupCreate i.group 0 false, (s.groupDirAdd env.dir).groups.next)

/-- The answer of `intro`; a bad name ends the connection without one. -/
def Server.introAnswer : Answer :=
  if nameOk i.user && nameOk i.group then
    if env.valid then
      match (s.groupFor i env).1.groupJoin (s.groupFor i env).2 i.user i.nxtAddr with
      | none => .memberExists
      | some _ => .ok
    else .badToken
  else .badName

end

/-- The groups are the same, and each has as many members. -/
structure SameGroups (s s' : Server) : Prop where
  groupList : s'.groupList = s.groupList
  nMembers : ∀ pg ∈ s.groupList, (s'.groups.cell pg).nMembers = (s.groups.cell pg).nMembers

theorem SameGroups.refl (s : Server) : SameGroups s s := ⟨rfl, fun _ _ => rfl⟩

section
variable {s : Server} {sock : Int} {i : Intro} {env : Surroundings}

/-- **What is left of a rejected introduction** is the group that was found or created for it. -/
theorem intro_rejected (h : s.introAnswer i env ≠ .ok) :
    s.intro sock i env =
      if nameOk i.user && nameOk i.group then some ((s.groupFor i env).1, env.sent) else some (s, false) := by
  unfold Server.introAnswer at h
  unfold Server.intro
  split
  · next hnames =>
    rw [if_pos hnames] at h
    show (if env.valid then _ else _) = _
    split
    · next hvalid =>
      rw [if_pos hvalid] at h
      show (match (s.groupFor i env).1.groupJoin (s.groupFor i env).2 i.user i.nxtAddr with
        | none => _
        | some _ => _) = _
      cases hjoin : (s.groupFor i env).1.groupJoin (s.groupFor i env).2 i.user i.nxtAddr with
      | none => rfl
      | some joined =>
        rw [hjoin] at h
        exact absurd rfl h
    · rfl
  · rfl

theorem length_groupDirAdd_le (s : Server) (dir : List Text) :
    s.groupList.length ≤ (s.groupDirAdd dir).groupList.length := by
  induction dir generalizing s with
  | nil => exact Nat.le_refl _
  | cons name dir ih =>
    rw [groupDirAdd_cons]
    refine le_trans ?_ (ih _)
    split
    · exact Nat.le_succ _
    · exact Nat.le_refl _

/-- The names in the group directory are those of groups in the list, or of hidden files. -/
def Known (s : Server) (dir : List Text) : Prop := ∀ name ∈ dir, name.head? = some '.' ∨ (s.groupNamed name).isSome

instance (s : Server) (dir : List Text) : Decidable (Known s dir) := inferInstanceAs (Decidable (∀ _ ∈ _, _))

/-- The directory adds no group when all of its names are known. -/
theorem groupDirAdd_known_iff (s : Server) (dir : List Text) :
    (s.groupDirAdd dir).groupList.length = s.groupList.length ↔ Known s dir := by
  induction dir generalizing s with
  | nil => exact iff_of_true rfl (List.forall_mem_nil _)
  | cons name dir ih =>
    rw [groupDirAdd_cons, Known, List.forall_mem_cons]
    by_cases hnew : name.head? ≠ some '.' ∧ s.groupNamed name = none
    · rw [if_pos hnew]
      refine iff_of_false ?_ ?_
      · have hle := length_groupDirAdd_le (s.groupCreate name 1 true) dir
        have hlength : (s.groupCreate name 1 true).groupList.length = s.groupList.length + 1 := rfl
        omega
      · rintro ⟨hknown, -⟩
        rcases hknown with hdot | hsome
        · exact hnew.1 hdot
        · rw [hnew.2] at hsome
          cases hsome
    · rw [if_neg hnew, ih]
      refine (and_iff_right ?_).symm
      by_cases hdot : name.head? = some '.'
      · exact .inl hdot
      · exact .inr (Option.isSome_iff_ne_none.mpr fun hnone => hnew ⟨hdot, hnone⟩)

theorem groupDirAdd_of_known {s : Server} {dir : List Text} (h : Known s dir) : s.groupDirAdd dir = s := by
  induction dir with
  | nil => rfl
  | cons name dir ih =>
    obtain ⟨hname, hdir⟩ := List.forall_mem_cons.mp h
    rw [groupDirAdd_cons, if_neg, ih hdir]
    rintro ⟨hdot, hnone⟩
    rw [hnone] at hname
    rcases hname with hname | hname
    · exact hdot hname
    · cases hname

/-- The search for the group adds nothing when it and the directory are known. -/
theorem sameGroups_groupFor_iff :
    SameGroups s (s.groupFor i env).1 ↔ Known s env.dir ∧ (s.groupNamed i.group).isSome := by
  constructor
  · rintro ⟨hlist, -⟩
    have hlength := congrArg List.length hlist
    have hle := length_groupDirAdd_le s env.dir
    unfold Server.groupFor at hlength
    cases hnamed : (s.groupDirAdd env.dir).groupNamed i.group with
    | none =>
      rw [hnamed] at hlength
      have hcreate : ((s.groupDirAdd env.dir).groupCreate i.group 0 false).groupList.length
          = (s.groupDirAdd env.dir).groupList.length + 1 := rfl
      dsimp only at hlength
      omega
    | some pg =>
      rw [hnamed] at hlength
      have hknown := (groupDirAdd_known_iff s env.dir).mp hlength
      rw [groupDirAdd_of_known hknown] at hnamed
      exact ⟨hknown, Option.isSome_of_eq_some hnamed⟩
  · rintro ⟨hknown, hsome⟩
    obtain ⟨pg, hnamed⟩ := Option.isSome_iff_exists.mp hsome
    unfold Server.groupFor
    rw [groupDirAdd_of_known hknown, hnamed]
    exact SameGroups.refl s

/-- **Which rejected introductions leave no trace**: those with a bad name, and those to a group that is in the list. -/
theorem sameGroups_iff (h : s.introAnswer i env ≠ .ok) :
    (∀ s' goesOn, s.intro sock i env = some (s', goesOn) → SameGroups s s') ↔
      ¬ (nameOk i.user ∧ nameOk i.group) ∨ Known s env.dir ∧ (s.groupNamed i.group).isSome := by
  rw [intro_rejected h]
  by_cases hnames : nameOk i.user ∧ nameOk i.group
  · rw [if_pos ((Bool.and_eq_true _ _).mpr hnames), or_iff_right (not_not_intro hnames), ← sameGroups_groupFor_iff]
    constructor
    · intro hall
      exact hall _ _ rfl
    · rintro hsame s' goesOn heq
      obtain ⟨rfl, -⟩ := Prod.mk.inj (Option.some.inj heq)
      exact hsame
  · rw [if_neg fun hand => hnames ((Bool.and_eq_true _ _).mp hand)]
    refine iff_of_true (fun s' goesOn heq => ?_) (.inl hnames)
    obtain ⟨rfl, -⟩ := Prod.mk.inj (Option.some.inj heq)
    exact SameGroups.refl s

end

/-- An introduction to a group that nobody is in. -/
def firstIntro : Intro := { user := "bob".toList, group := "chess".toList, pass := [], nxtAddr := "1".toList }

/-- A bad token, on a server without groups. -/
theorem sameGroups_iff_badToken :
    Server.introAnswer {} firstIntro { valid := false } ≠ .ok ∧
      ((∀ s' goesOn, Server.intro {} 3 firstIntro { valid := false } = some (s', goesOn) → SameGroups {} s') ↔
        ¬ (nameOk firstIntro.user ∧ nameOk firstIntro.group) ∨
          Known {} [] ∧ (Server.groupNamed {} firstIntro.group).isSome) :=
  ⟨by decide, sameGroups_iff (by decide)⟩

/-- The empty group stays. -/
theorem not_forall_sameGroups : ¬ ∀ (s : Server) (sock : Int) (i : Intro) (env : Surroundings) (s' : Server)
    (goesOn : Bool), s.introAnswer i env ≠ .ok → s.intro sock i env = some (s', goesOn) → SameGroups s s' := by
  intro h
  have hrejected : Server.introAnswer {} firstIntro { valid := false } ≠ .ok := by decide
  have hintro : Server.intro {} 3 firstIntro { valid := false } = some ((Server.groupFor {} firstIntro {}).1, true) :=
    intro_rejected hrejected
  exact absurd (h _ _ _ _ _ _ hrejected hintro).groupList (by decide)

end NXTServices.Punch
