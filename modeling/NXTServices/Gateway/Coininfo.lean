import NXTServices.Gateway.Funds

/-!
# What a node publishes of a coin: `gen_coininfo_json` of `genjson.h`

* `userpassLoop`, `hideUserpass` : the user and the start of the password;
* `genCoininfoJson` : the JSON of a coin;
* `userpassLoop_user`, `userpassLoop_take`, `min_five_le_userpassLoop` : what the loop copies;
* `genCoininfoJson_hides_iff` : which passwords stay hidden.
-/

namespace NXTServices.Gateway
open Json hiding null true false

/-! ## The JSON of a coin -/

/-- The loop from the character `i` on. Each separator moves the bound. -/
def userpassLoop : Text → Nat → Nat → Text
  | [], _, _ => []
  | c :: userpass, i, max =>
    if i < max then c :: userpassLoop userpass (i + 1) (if c = ':' then i + 5 else max) else []

/-- The text has to fit in the buffer. -/
def hideUserpass (userpass : Text) : Text := userpassLoop userpass 0 512 ++ "....".toList

/-- `unspent` is the item of `gen_unspent_json`, and `replicated` are those of the coin's lists, queues and tables. -/
def genCoininfoJson (coinid : Nat) (funds : BalanceInfo) (unspent : Json) (replicated : List (Text × Json))
    (serverport userpass : Text) : Json :=
  object
    ([ ("assetname".toList, string (coinidStr coinid)),
       ("funds".toList, genFundsJson funds),
       ("unspent".toList, unspent) ] ++ replicated ++
     [ ("assetid".toList, string (assetidStr coinid)),
       ("serverport".toList, string serverport),
       ("userpass".toList, string (hideUserpass userpass)) ])

/-- The text of the last item. -/
def publishedUserpass (json : Json) : Option Text :=
  match (items json).getLast? with
  | some (string userpass) => some userpass
  | _ => none

theorem publishedUserpass_genCoininfoJson (coinid : Nat) (funds : BalanceInfo) (unspent : Json)
    (replicated : List (Text × Json)) (serverport userpass : Text) :
    publishedUserpass (genCoininfoJson coinid funds unspent replicated serverport userpass) =
      some (hideUserpass userpass) := by
  rw [publishedUserpass, genCoininfoJson, items, List.map_append, List.map_cons, List.map_cons, List.map_cons,
    List.map_nil, List.getLast?_append]
  rfl

/-! ## What the loop copies -/

theorem userpassLoop_user {user : Text} (huser : ':' ∉ user) (password : Text) {i max : Nat}
    (h : i + user.length < max) :
    userpassLoop (user ++ ':' :: password) i max =
      user ++ ':' :: userpassLoop password (i + user.length + 1) (i + user.length + 5) := by
  induction user generalizing i with
  | nil =>
    rw [List.nil_append, userpassLoop, if_pos (by exact h), if_pos rfl]
    rfl
  | cons c user ih =>
    obtain ⟨hc, huser⟩ := List.ne_and_not_mem_of_not_mem_cons huser
    rw [List.length_cons] at h ⊢
    rw [List.cons_append, userpassLoop, if_pos (by omega), if_neg (Ne.symm hc), ih huser (by omega), List.cons_append,
      Nat.add_right_comm i 1, Nat.add_assoc i user.length 1]

theorem userpassLoop_take {s : Text} {n : Nat} (h : ':' ∉ s.take n) (i : Nat) :
    userpassLoop s i (i + n) = s.take n := by
  induction s generalizing n i with
  | nil => rw [userpassLoop, List.take_nil]
  | cons c s ih =>
    cases n with
    | zero => rw [userpassLoop, if_neg (by omega), List.take_zero]
    | succ n =>
      obtain ⟨hc, hs⟩ := List.ne_and_not_mem_of_not_mem_cons h
      rw [userpassLoop, if_pos (by omega), if_neg (Ne.symm hc), List.take_succ_cons, ← ih hs (i + 1),
        Nat.add_right_comm, Nat.add_assoc]

theorem userpassLoop_prefix (s : Text) (i max : Nat) : userpassLoop s i max <+: s := by
  induction s generalizing i max with
  | nil => exact List.prefix_rfl
  | cons c s ih =>
    rw [userpassLoop]
    split
    · exact List.prefix_cons_inj c |>.mpr (ih _ _)
    · exact List.nil_prefix

/-- Up to five characters are copied whatever they are. -/
theorem min_le_length_userpassLoop (s : Text) (i : Nat) {n : Nat} (hn : n ≤ 5) :
    min n s.length ≤ (userpassLoop s i (i + n)).length := by
  induction s generalizing i n with
  | nil => exact Nat.min_le_right _ _
  | cons c s ih =>
    cases n with
    | zero => exact (Nat.min_le_left _ _).trans (Nat.zero_le _)
    | succ n =>
      rw [userpassLoop, if_pos (by omega), List.length_cons, List.length_cons]
      split
      · have hrest : min 4 s.length ≤ (userpassLoop s (i + 1) (i + 5)).length := ih (i + 1) (by omega)
        omega
      · have hrest := ih (i + 1) (n := n) (by omega)
        rw [Nat.add_assoc, Nat.add_comm 1 n] at hrest
        omega

/-- **A separator among the characters left makes room for more of them.** -/
theorem min_five_le_userpassLoop {s : Text} {n : Nat} (h : ':' ∈ s.take n) (hn : n ≤ 4) (i : Nat) :
    min 5 s.length ≤ (userpassLoop s i (i + n)).length := by
  induction s generalizing n i with
  | nil => exact Nat.min_le_right _ _
  | cons c s ih =>
    cases n with
    | zero => cases h
    | succ n =>
      rw [userpassLoop, if_pos (by omega), List.length_cons, List.length_cons]
      by_cases hc : c = ':'
      · have hrest : min 4 s.length ≤ (userpassLoop s (i + 1) (i + 5)).length :=
          min_le_length_userpassLoop s (i + 1) (by omega)
        rw [if_pos hc]
        omega
      · have hrest := ih (List.mem_of_ne_of_mem (Ne.symm hc) h) (by omega) (i + 1)
        rw [Nat.add_assoc, Nat.add_comm 1 n] at hrest
        rw [if_neg hc]
        omega

/-- At most four characters of the password are copied, unless one of them is a separator. -/
theorem userpassLoop_password_iff (password : Text) (i : Nat) :
    (∃ k ≤ 4, userpassLoop password i (i + 4) = password.take k) ↔ password.length ≤ 4 ∨ ':' ∉ password.take 4 := by
  constructor
  · rintro ⟨k, hk, hcopy⟩
    by_contra hmore
    obtain ⟨hlong, hsep⟩ := not_or.mp hmore
    have hlength := min_five_le_userpassLoop (not_not.mp hsep) le_rfl i
    rw [hcopy, List.length_take] at hlength
    omega
  · rintro (hshort | hsep)
    · have hprefix := userpassLoop_prefix password i (i + 4)
      exact ⟨_, hprefix.length_le.trans hshort, List.prefix_iff_eq_take.mp hprefix⟩
    · exact ⟨4, le_rfl, userpassLoop_take hsep i⟩

/-- **Which passwords stay hidden**: those without a separator among their first four characters, and the short ones. -/
theorem genCoininfoJson_hides_iff (coinid : Nat)
    (funds : BalanceInfo) (unspent : Json) (replicated : List (Text × Json)) (serverport : Text) {user password : Text}
    (huser : ':' ∉ user) (hlength : (user ++ ':' :: password).length < 500) :
    (∃ k ≤ 4, publishedUserpass (genCoininfoJson coinid funds unspent replicated serverport (user ++ ':' :: password)) =
        some (user ++ ':' :: password.take k ++ "....".toList)) ↔ password.length ≤ 4 ∨ ':' ∉ password.take 4 := by
  rw [List.length_append] at hlength
  have hcopy : userpassLoop (user ++ ':' :: password) 0 512 =
      user ++ ':' :: userpassLoop password (0 + user.length + 1) (0 + user.length + 5) :=
    userpassLoop_user huser password (by omega)
  have hsame (k : Nat) : hideUserpass (user ++ ':' :: password) = user ++ ':' :: password.take k ++ "....".toList ↔
      userpassLoop password (user.length + 1) (user.length + 1 + 4) = password.take k := by
    rw [hideUserpass, hcopy, Nat.zero_add, List.append_left_inj, List.append_right_inj, List.cons_inj_right]
  simp_rw [publishedUserpass_genCoininfoJson, Option.some.injEq, hsame]
  exact userpassLoop_password_iff password (user.length + 1)

theorem genCoininfoJson_hides_iff_at_doge :
    ':' ∉ "user".toList ∧
      ((∃ k ≤ 4, publishedUserpass (genCoininfoJson 4 {} (object []) [] "127.0.0.1:22555".toList "user:secret".toList) =
          some ("user".toList ++ ':' :: "secret".toList.take k ++ "....".toList)) ↔
        "secret".toList.length ≤ 4 ∨ ':' ∉ "secret".toList.take 4) :=
  have huser : ':' ∉ "user".toList := by decide
  have hlength : ("user".toList ++ ':' :: "secret".toList).length < 500 := by decide
  ⟨huser, genCoininfoJson_hides_iff 4 {} (object []) [] "127.0.0.1:22555".toList huser hlength⟩

/-- Of the password `a:bcdefgh`, six characters are published. -/
theorem not_forall_genCoininfoJson_hides :
    ¬ ∀ (coinid : Nat) (funds : BalanceInfo) (unspent : Json) (replicated : List (Text × Json))
      (serverport user password : Text), ':' ∉ user → (user ++ ':' :: password).length < 500 →
        ∃ k ≤ 4,
          publishedUserpass (genCoininfoJson coinid funds unspent replicated serverport (user ++ ':' :: password)) =
            some (user ++ ':' :: password.take k ++ "....".toList) := by
  intro h
  obtain ⟨k, hk, hpublished⟩ :=
      h 4 {} (object []) [] "127.0.0.1:22555".toList "user".toList "a:bcdefgh".toList (by decide)
    (by decide)
  have hshown : publishedUserpass
      (genCoininfoJson 4 {} (object []) [] "127.0.0.1:22555".toList "user:a:bcdefgh".toList) =
      some "user:a:bcde....".toList := by decide
  have hlength := congrArg (Option.map List.length) (hshown.symm.trans hpublished)
  interval_cases k <;> exact absurd hlength (by decide)

end NXTServices.Gateway
