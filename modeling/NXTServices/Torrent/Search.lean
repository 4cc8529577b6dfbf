import NXTServices.Torrent.Deals

/-!
# Searching the listings: `listings_func` of `NXTorrent.h`

* `passesFilter`, `listingsItem`, `Search.listingsFunc` : the functions, over the table with its slots;
* `Qualifies` : a listing that a search is to show;
* `loop_eq`, `foldl_visit` : the loop looks at the first 101 listings, and shows those that qualify;
* `listingsFunc_dp` : what it writes is what `Torrent.listingsFunc` writes;
* `search_keepsDeals_iff` : when a search leaves the listings with a deal alone;
* `complete_iff` : when it shows what it is to show.
-/

namespace NXTServices.Torrent
open Json hiding null true false
open Gateway (int32)
open Hashtable (Entry hashtableGatherModified)

/-! ## The function -/

def nxtorrentMaxlistingsDisp : Nat := 100

/-- The structure has no definition. -/
structure NXTorrentFilter where

def calcNXTorrentFilter (_json : Option Json) : Option NXTorrentFilter := none

def isNXTorrentFiltered (_filter : NXTorrentFilter) (_lp : NXTorrentListing) : Int := 1

/-- The listing afterwards, and the answer. -/
def passesFilter (lp : NXTorrentListing) (filter : Option NXTorrentFilter) (timestamp : Int) :
    NXTorrentListing × Int :=
  let lp := expired timestamp lp
  (lp,
    if lp.status = nxtorrentActive ∨ lp.status = nxtorrentOffered then
      match filter with
      | some filter => if isNXTorrentFiltered filter lp ≠ 0 then 0 else 1
      | none => 1
    else 0)

/-- The `"%02d"` of a number. -/
def twoDigits (n : Int) : Text := if 0 ≤ n ∧ n < 10 then '0' :: decimal n else decimal n

def timeleft (remaining : Int) : Text :=
  decimal (remaining.tdiv 3600) ++ ":".toList ++ twoDigits ((remaining.tdiv 60).tmod 60) ++ ":".toList ++
    twoDigits (remaining.tmod 60)

/-- The item of a listing that is shown. -/
def listingsItem (env : Env) (timestamp : Int) (lp : NXTorrentListing) : Json :=
  objectOf
    [ ("listingid", some (string lp.listingid)),
      ("title", some (string lp.title)),
      ("category1", some (string (lp.category.getD 0 []))),
      ("price", if 0 < lp.price then some (string (env.coins lp.price)) else none),
      ("NXTsubatomic",
        if 0 < lp.price then none
        else if 0 < lp.amount ∧ (lp.coinid = env.nxtCoinid ∨ lp.coinaddr ≠ []) then
          genNXTsubatomicJson env lp.coinid lp.assetidbits lp.amount lp.coinaddr
        else none),
      ("status", some (string (nxtorrentStatusStr lp.status))),
      ("timeleft", some (string (timeleft (int32 (lp.expiration - timestamp))))) ]

/-- The loop of `listings_func`. An item has the address of its listing beside it. -/
structure Search where
  dp : NXTorrentInfo
  n : Int := 0
  array : List (Nat × Json) := []

namespace Search

/-- One round without the `break`. -/
def visit (env : Env) (filter : Option NXTorrentFilter) (s : Search) (r : Nat) : Search :=
  let (lp, passes) := passesFilter (s.dp.lp r) filter s.dp.timestamp
  let dp := s.dp.modifyLp r fun _ => lp
  if 0 < passes then
    { dp := dp, n := s.n + 1, array := s.array ++ [(r, listingsItem env dp.timestamp (dp.lp r))] }
  else { s with dp := dp }

def loop (env : Env) (filter : Option NXTorrentFilter) (i : Nat) (s : Search) : List Nat → Search
  | [] => s
  | r :: all =>
    let s := s.visit env filter r
    -- the position is compared, and not the number of items
    if nxtorrentMaxlistingsDisp ≤ i then s else loop env filter (i + 1) s all

/-- The addresses of the listings, in the order of the slots. -/
def gathered (hp : Hashtable) : List Nat := (hashtableGatherModified hp true).2.map Entry.ptr

/-- `hp` is the table of the listings; the loop at its end, and the text that is returned. -/
def listingsFunc (env : Env) (dp : NXTorrentInfo) (hp : Hashtable) (nxtAddr : Text) (filters : Option Json) :
    Search × Text :=
  let noMatches := nxtorrentRetjson (-1) (some "no matches".toList) none
  if nxtAddr ≠ [] then
    if (hashtableGatherModified hp true).1 ≠ 0 then
      let s := loop env (calcNXTorrentFilter filters) 0 { dp := dp } (gathered hp)
      if 0 < s.n then
        (s, nxtorrentRetjson 0 (some "search results".toList) (some (cJSONPrint (Json.array (s.array.map Prod.snd)))))
      else (s, noMatches)
    else ({ dp := dp }, noMatches)
  else ({ dp := dp }, noMatches)

/-! ## What a search shows -/

/-- Active or offered, and not past its time. -/
def Qualifies (dp : NXTorrentInfo) (r : Nat) : Prop :=
  ((dp.lp r).status = nxtorrentActive ∨ (dp.lp r).status = nxtorrentOffered) ∧ dp.timestamp ≤ (dp.lp r).expiration
deriving Decidable

section
variable {env : Env} {dp : NXTorrentInfo} {hp : Hashtable} {nxtAddr : Text} {filters : Option Json}
  {s : Search} {r r' : Nat} {all : List Nat}

theorem expired_of_qualifies (h : Qualifies dp r) : expired dp.timestamp (dp.lp r) = dp.lp r :=
  if_neg (Int.not_lt.mpr h.2)

theorem status_expired_iff (timestamp : Int) (l : NXTorrentListing) :
    (expired timestamp l).status = nxtorrentActive ∨ (expired timestamp l).status = nxtorrentOffered ↔
      (l.status = nxtorrentActive ∨ l.status = nxtorrentOffered) ∧ timestamp ≤ l.expiration := by
  unfold expired
  by_cases hlate : l.expiration < timestamp
  · have hnot : ¬timestamp ≤ l.expiration := Int.not_le.mpr hlate
    rw [if_pos hlate]
    simp [hnot, nxtorrentExpired, nxtorrentActive, nxtorrentOffered]
  · rw [if_neg hlate]
    simp [Int.not_lt.mp hlate]

theorem expired_expired (timestamp : Int) (l : NXTorrentListing) :
    expired timestamp (expired timestamp l) = expired timestamp l := by
  by_cases hlate : l.expiration < timestamp
  · have hstatus : expired timestamp l = { l with status := nxtorrentExpired } := if_pos hlate
    rw [hstatus]
    exact if_pos hlate
  · have hsame : expired timestamp l = l := if_neg hlate
    rw [hsame, hsame]

/-- A look at a listing leaves open which listings qualify. -/
theorem qualifies_modifyLp : Qualifies (dp.modifyLp r (expired dp.timestamp)) r' ↔ Qualifies dp r' := by
  unfold Qualifies
  rw [lp_modifyLp]
  split
  · next hsame =>
    rw [hsame, status_expired_iff]
    unfold expired
    split
    · exact and_iff_left_of_imp And.right
    · exact and_iff_left_of_imp And.right
  · exact Iff.rfl

/-- One round, for the filter that there is. -/
theorem visit_eq : s.visit env none r =
    { dp := s.dp.modifyLp r (expired s.dp.timestamp)
      n := s.n + if Qualifies s.dp r then 1 else 0
      array := s.array ++
        if Qualifies s.dp r then [(r, listingsItem env s.dp.timestamp (s.dp.lp r))] else [] } := by
  have hdp : (s.dp.modifyLp r fun _ => expired s.dp.timestamp (s.dp.lp r)) =
      s.dp.modifyLp r (expired s.dp.timestamp) := modifyLp_congr rfl
  unfold visit passesFilter
  dsimp only
  rw [hdp]
  by_cases hqual : Qualifies s.dp r
  · rw [if_pos ((status_expired_iff _ _).mpr hqual), if_pos hqual, if_pos hqual, if_pos Int.one_pos, lp_modifyLp,
      if_pos rfl, expired_of_qualifies hqual]
    rfl
  · rw [if_neg ((status_expired_iff _ _).not.mpr hqual), if_neg hqual, if_neg hqual, if_neg (Int.lt_irrefl 0)]
    simp

/-- **The `break` comes behind the 101st listing**, however many have been shown. -/
theorem loop_eq {filter : Option NXTorrentFilter} {i : Nat} (hi : i ≤ nxtorrentMaxlistingsDisp) :
    loop env filter i s all = (all.take (nxtorrentMaxlistingsDisp + 1 - i)).foldl (visit env filter) s := by
  induction all generalizing i s with
  | nil => simp [loop]
  | cons r all ih =>
    unfold loop
    by_cases hlast : nxtorrentMaxlistingsDisp ≤ i
    · obtain rfl := Nat.le_antisymm hi hlast
      rw [if_pos hlast, Nat.add_sub_cancel_left]
      rfl
    · have hnext : nxtorrentMaxlistingsDisp + 1 - i = (nxtorrentMaxlistingsDisp + 1 - (i + 1)) + 1 := by omega
      rw [if_neg hlast, ih (by omega), hnext]
      rfl

/-- **The rounds show the listings that qualify**, each with its item. -/
theorem foldl_visit (first : List Nat) : first.foldl (visit env none) s =
    { dp := first.foldl (fun dp r => dp.modifyLp r (expired dp.timestamp)) s.dp
      n := s.n + (first.filter (Qualifies s.dp)).length
      array := s.array ++ (first.filter (Qualifies s.dp)).map
        fun r => (r, listingsItem env s.dp.timestamp (s.dp.lp r)) } := by
  induction first generalizing s with
  | nil => simp
  | cons r first ih =>
    have hsame : first.filter (Qualifies (s.visit env none r).dp) = first.filter (Qualifies s.dp) := by
      apply List.filter_congr
      intro r' _
      rw [visit_eq]
      exact decide_eq_decide.mpr qualifies_modifyLp
    have hitem : ∀ r' ∈ first.filter (Qualifies s.dp), (s.visit env none r).dp.lp r' = s.dp.lp r' := by
      intro r' hr'
      have hqual : Qualifies s.dp r' := of_decide_eq_true (List.mem_filter.mp hr').2
      rw [visit_eq, lp_modifyLp]
      split
      · next heq => rw [← heq, expired_of_qualifies hqual]
      · rfl
    have hmap : (first.filter (Qualifies s.dp)).map
          (fun r' => (r', listingsItem env s.dp.timestamp ((s.visit env none r).dp.lp r'))) =
        (first.filter (Qualifies s.dp)).map fun r' => (r', listingsItem env s.dp.timestamp (s.dp.lp r')) :=
      List.map_congr_left fun r' hr' => by rw [hitem r' hr']
    have htimestamp : (s.visit env none r).dp.timestamp = s.dp.timestamp := by
      rw [visit_eq]
      rfl
    rw [List.foldl_cons, ih, hsame, htimestamp, hmap, visit_eq, List.foldl_cons]
    by_cases hqual : Qualifies s.dp r
    · simp [hqual]
      omega
    · simp [hqual]

theorem listingsFunc_fst : (listingsFunc env dp hp nxtAddr filters).1 =
    if nxtAddr ≠ [] then ((gathered hp).take (nxtorrentMaxlistingsDisp + 1)).foldl (visit env none) { dp := dp }
    else { dp := dp } := by
  unfold listingsFunc
  by_cases haddr : nxtAddr ≠ []
  · simp only [if_pos haddr]
    by_cases hnum : (hashtableGatherModified hp true).1 ≠ 0
    · rw [if_pos hnum]
      simp only [calcNXTorrentFilter, loop_eq (Nat.zero_le _), Nat.sub_zero]
      split <;> rfl
    · have hnone : gathered hp = [] := by
        unfold gathered hashtableGatherModified at *
        simpa [List.countP_eq_zero] using hnum
      rw [if_neg hnum, hnone]
      rfl
  · simp only [if_neg haddr]

/-- **What a search writes** is what `Torrent.listingsFunc` does to the gathered listings. -/
theorem listingsFunc_dp : (listingsFunc env dp hp nxtAddr filters).1.dp =
    if nxtAddr ≠ [] then Torrent.listingsFunc dp (gathered hp) else dp := by
  rw [listingsFunc_fst]
  split
  · rw [foldl_visit]
    rfl
  · rfl

theorem lp_listingsFunc : (Torrent.listingsFunc dp all).lp r =
    if r ∈ all.take 101 then expired dp.timestamp (dp.lp r) else dp.lp r := by
  unfold Torrent.listingsFunc
  generalize all.take 101 = first
  induction first generalizing dp with
  | nil => rfl
  | cons r' first ih =>
    rw [List.foldl_cons, ih, lp_modifyLp]
    show (if r ∈ first then expired dp.timestamp _ else _) = _
    by_cases hsame : r = r'
    · subst hsame
      rw [if_pos rfl, if_pos List.mem_cons_self, expired_expired]
      exact ite_self _
    · rw [if_neg hsame]
      simp only [List.mem_cons, hsame, false_or]

/-! ## Listings with a deal -/

/-- Only the listings that are active or offered have a new status. -/
def KeepsDeals (dp dp' : NXTorrentInfo) : Prop :=
  ∀ r, (dp'.lp r).status ≠ (dp.lp r).status → (dp.lp r).status = nxtorrentActive ∨ (dp.lp r).status = nxtorrentOffered

theorem status_expired_ne_iff (timestamp : Int) (l : NXTorrentListing) : (expired timestamp l).status ≠ l.status ↔
    l.expiration < timestamp ∧ l.status ≠ nxtorrentExpired := by
  unfold expired
  split
  · next hlate => simp [hlate, eq_comm]
  · next hlate => simp [hlate]

theorem keepsDeals_listingsFunc_iff : KeepsDeals dp (Torrent.listingsFunc dp all) ↔
    ∀ r ∈ all.take 101, (dp.lp r).expiration < dp.timestamp →
      (dp.lp r).status ∈ [nxtorrentActive, nxtorrentOffered, nxtorrentExpired] := by
  simp only [List.mem_cons, List.not_mem_nil, or_false]
  constructor
  · intro hkeeps r hr hlate
    by_cases hexpired : (dp.lp r).status = nxtorrentExpired
    · exact .inr (.inr hexpired)
    · have hchanged : ((Torrent.listingsFunc dp all).lp r).status ≠ (dp.lp r).status := by
        rw [lp_listingsFunc, if_pos hr]
        exact (status_expired_ne_iff _ _).mpr ⟨hlate, hexpired⟩
      have hstatus := hkeeps r hchanged
      tauto
  · intro hlate r hstatus
    rw [lp_listingsFunc] at hstatus
    split at hstatus
    · next hr =>
      obtain ⟨hr', hne⟩ := (status_expired_ne_iff _ _).mp hstatus
      have := hlate r hr hr'
      tauto
    · exact absurd rfl hstatus

/-- **A search leaves the other listings alone** exactly when none of those that it looks at is past its
time, `EXPIRED` itself apart: `passes_filter` asks for the status only behind the write. -/
theorem search_keepsDeals_iff (env : Env) (dp : NXTorrentInfo) (hp : Hashtable) (nxtAddr : Text)
    (filters : Option Json) :
    KeepsDeals dp (listingsFunc env dp hp nxtAddr filters).1.dp ↔
      (nxtAddr ≠ [] → ∀ r ∈ (gathered hp).take 101, (dp.lp r).expiration < dp.timestamp →
        (dp.lp r).status ∈ [nxtorrentActive, nxtorrentOffered, nxtorrentExpired]) := by
  rw [listingsFunc_dp]
  by_cases haddr : nxtAddr ≠ []
  · rw [if_pos haddr, keepsDeals_listingsFunc_iff]
    exact (imp_iff_right haddr).symm
  · rw [if_neg haddr]
    simp [haddr, KeepsDeals]

/-- A table of copies of one listing. -/
def copies (n : Nat) : Hashtable where
  hashtable := (List.range n).map fun i => some { ptr := i, key := "7".toList }
  hashsize := n
  keysize := 64

/-- An accepted offer, looked at after the listing's time. -/
theorem not_forall_keepsDeals : ¬∀ (env : Env) (dp : NXTorrentInfo) (hp : Hashtable) (nxtAddr : Text)
    (filters : Option Json), KeepsDeals dp (listingsFunc env dp hp nxtAddr filters).1.dp := by
  intro h
  have hkeeps := h wholeEnv
    { lps := { next := 1, cell := fun _ => { status := nxtorrentAccepted, expiration := 100 } }, timestamp := 101 }
    (copies 1) "5".toList none 0
  exact absurd (hkeeps (by decide)) (by decide)

/-! ## Completeness -/

/-- At most 100 listings are shown, those that qualify, and all of these when they are not more. -/
structure Complete (env : Env) (dp : NXTorrentInfo) (hp : Hashtable) (array : List (Nat × Json)) : Prop where
  capped : array.length ≤ nxtorrentMaxlistingsDisp
  shown : ∀ x ∈ array, x.1 ∈ gathered hp ∧ Qualifies dp x.1 ∧ x.2 = listingsItem env dp.timestamp (dp.lp x.1)
  complete : ((gathered hp).filter (Qualifies dp)).length ≤ nxtorrentMaxlistingsDisp →
    ∀ r ∈ gathered hp, Qualifies dp r → r ∈ array.map Prod.fst

theorem listingsFunc_array (haddr : nxtAddr ≠ []) : (listingsFunc env dp hp nxtAddr filters).1.array =
    (((gathered hp).take 101).filter (Qualifies dp)).map fun r => (r, listingsItem env dp.timestamp (dp.lp r)) := by
  rw [listingsFunc_fst, if_pos haddr, foldl_visit]
  rfl

/-- The first 101 listings are too many when all of them qualify. -/
theorem length_filter_take_le_iff : ((all.take 101).filter (Qualifies dp)).length ≤ nxtorrentMaxlistingsDisp ↔
    all.length ≤ nxtorrentMaxlistingsDisp ∨ ∃ r ∈ all.take 101, ¬Qualifies dp r := by
  have hle : ((all.take 101).filter (Qualifies dp)).length ≤ (all.take 101).length := List.length_filter_le _ _
  have hlength : (all.take 101).length = min 101 all.length := List.length_take
  have hall : ((all.take 101).filter (Qualifies dp)).length = (all.take 101).length ↔
      ∀ r ∈ all.take 101, Qualifies dp r := by
    rw [List.length_filter_eq_length_iff]
    exact forall₂_congr fun _ _ => decide_eq_true_iff
  have hcap : nxtorrentMaxlistingsDisp = 100 := rfl
  constructor
  · intro hshort
    by_contra hnot
    push Not at hnot
    have := hall.mpr hnot.2
    omega
  · rintro (hshort | ⟨r, hr, hqual⟩)
    · omega
    · have hne : ((all.take 101).filter (Qualifies dp)).length ≠ (all.take 101).length :=
        fun heq => hqual (hall.mp heq r hr)
      omega

/-- **A search is complete** exactly when its first 101 listings do not all qualify, and when no other one
qualifies unless more than 100 do. -/
theorem search_complete_iff (env : Env) (dp : NXTorrentInfo) (hp : Hashtable) (nxtAddr : Text)
    (filters : Option Json) (haddr : nxtAddr ≠ []) :
    Complete env dp hp (listingsFunc env dp hp nxtAddr filters).1.array ↔
      ((gathered hp).length ≤ nxtorrentMaxlistingsDisp ∨ ∃ r ∈ (gathered hp).take 101, ¬Qualifies dp r) ∧
      (((gathered hp).filter (Qualifies dp)).length ≤ nxtorrentMaxlistingsDisp →
        ∀ r ∈ (gathered hp).drop 101, Qualifies dp r → r ∈ (gathered hp).take 101) := by
  have hfst : (((((gathered hp).take 101).filter (Qualifies dp)).map
      fun r => (r, listingsItem env dp.timestamp (dp.lp r))).map Prod.fst) =
        ((gathered hp).take 101).filter (Qualifies dp) := by
    rw [List.map_map]
    exact List.map_id _
  rw [listingsFunc_array haddr]
  constructor
  · intro h
    refine ⟨length_filter_take_le_iff.mp (List.length_map _ ▸ h.capped), fun hfew r hr hqual => ?_⟩
    have hshown := h.complete hfew r (List.mem_of_mem_drop hr) hqual
    rw [hfst] at hshown
    exact (List.mem_filter.mp hshown).1
  · rintro ⟨hcapped, hbehind⟩
    refine ⟨?_, fun x hx => ?_, fun hfew r hr hqual => ?_⟩
    · rw [List.length_map]
      exact length_filter_take_le_iff.mpr hcapped
    · obtain ⟨r, hr, rfl⟩ := List.mem_map.mp hx
      obtain ⟨hmem, hqual⟩ := List.mem_filter.mp hr
      exact ⟨List.mem_of_mem_take hmem, of_decide_eq_true hqual, rfl⟩
    · rw [hfst]
      refine List.mem_filter.mpr ⟨?_, decide_eq_true hqual⟩
      rcases List.mem_append.mp ((List.take_append_drop 101 (gathered hp)).symm ▸ hr) with hfront | hback
      · exact hfront
      · exact hbehind hfew r hback hqual

/-- Listings with one time, of which the first ones are over. -/
def overExcept (first : Nat) : NXTorrentInfo where
  lps :=
    { next := first + 1
      cell := fun r => { status := nxtorrentActive, expiration := if r < first then 100 else 200 } }
  timestamp := 150

theorem search_complete_one : Complete wholeEnv (overExcept 0) (copies 1)
    (listingsFunc wholeEnv (overExcept 0) (copies 1) "5".toList none).1.array :=
  (search_complete_iff wholeEnv (overExcept 0) (copies 1) "5".toList none (by decide)).mpr
    ⟨.inl (by decide), fun _ r hr => by cases hr⟩

/-- One active listing behind 101 that are over. -/
theorem not_forall_complete : ¬∀ (env : Env) (dp : NXTorrentInfo) (hp : Hashtable) (nxtAddr : Text)
    (filters : Option Json), nxtAddr ≠ [] → Complete env dp hp (listingsFunc env dp hp nxtAddr filters).1.array := by
  intro h
  have hcomplete := (h wholeEnv (overExcept 101) (copies 102) "5".toList none (by decide)).complete
  exact absurd (hcomplete (by decide +kernel) 101 (by decide +kernel) (by decide)) (by decide +kernel)

end
end Search

end NXTServices.Torrent
