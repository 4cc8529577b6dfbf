import NXTServices.Gateway.State
import NXTServices.Hex
import NXTServices.Serverloop
import NXTServices.Torrent.Listing

/-!
# `safecopy` of `utils/jl777str.h` as it fills the memory

* `safecopy` : the function, on the memory from `dest` on;
* `filled` : the bytes it leaves in the buffer, `safecopy_eq` : that it leaves these;
* `Safe` : the buffer is a string, a prefix of the source, or all of it when it fits;
* `safe_iff` : when it is;
* `copyFields_read` : what is read from the fields of an array filled one after the other;
* `extractCJSONStr_eq` : the copies of the other modules are the strings of the buffers.
-/

namespace NXTServices.Safecopy
open Hex

/-- The loop at `i`, where `src` is what is left of the source. An `i` beyond 32 bits has no value. -/
def copyLoop (len : Nat) : Text → Nat → Text → Option (Nat × Text)
  | [], i, dest => some (i, dest)
  | c :: src, i, dest =>
    if i < len ∧ c ≠ '\x00' then
      if i + 1 < 2 ^ 31 then copyLoop len src (i + 1) (dest.set i c) else none
    else some (i, dest)

/-- The answer and the memory from `dest` on, which is not null. -/
def safecopy (dest : Text) (src : Option Text) (len : Nat) : Option (Int × Text) :=
  let dest := List.replicate len '\x00' ++ dest.drop len
  match src with
  | none => some (-1, dest)
  | some src =>
    match copyLoop len src 0 dest with
    | none => none
    | some (i, dest) => if i = len then some (-1, dest) else some (i, dest.set i '\x00')

/-- The bytes of a string in a buffer of `len` bytes. -/
def filled (s : Text) (len : Nat) : Text := s.take len ++ List.replicate (len - s.length) '\x00'

/-- What a copy owes the readers of its buffer. -/
def Safe (dest src : Text) (len : Nat) : Prop :=
  ∃ ret dest', safecopy dest (some src) len = some (ret, dest') ∧ '\x00' ∈ dest'.take len ∧
    cString (dest'.take len) <+: cString src ∧
    ((cString src).length < len → cString (dest'.take len) = cString src)

variable {dest src s : Text} {len : Nat}

/-! ## The bytes left in the buffer -/

theorem length_filled (s : Text) (len : Nat) : (filled s len).length = len := by
  rw [filled, List.length_append, List.length_take, List.length_replicate]
  omega

theorem null_mem_filled_iff (h : '\x00' ∉ s) : '\x00' ∈ filled s len ↔ s.length < len := by
  have htake : '\x00' ∉ s.take len := fun hmem => h (List.mem_of_mem_take hmem)
  rw [filled, List.mem_append, or_iff_right htake, List.mem_replicate, and_iff_left rfl]
  omega

theorem cString_filled_append (h : '\x00' ∉ s) (len : Nat) (rest : Text) :
    cString (filled s len ++ rest) = if s.length < len then s else s.take len ++ cString rest := by
  have htake : '\x00' ∉ s.take len := fun hmem => h (List.mem_of_mem_take hmem)
  rw [filled, List.append_assoc, cString_append htake]
  split
  · next hlt =>
    obtain ⟨n, hn⟩ := Nat.exists_eq_add_of_lt hlt
    rw [List.take_of_length_le hlt.le, show len - s.length = n + 1 by omega, List.replicate_succ, List.cons_append,
      cString_cons_null, List.append_nil]
  · next hge =>
    rw [show len - s.length = 0 by omega, List.replicate_zero, List.nil_append]

theorem cString_filled (h : '\x00' ∉ s) (len : Nat) : cString (filled s len) = s.take len := by
  have hread := cString_filled_append h len []
  rw [List.append_nil, cString_nil, List.append_nil] at hread
  rw [hread]
  split
  · next hlt => exact (List.take_of_length_le hlt.le).symm
  · rfl

/-! ## The copy -/

/-- The loop copies what is left of the string, or what is left of the buffer. -/
theorem copyLoop_eq (src done rest : Text) (hdone : done.length < 2 ^ 31) (hlen : len ≤ done.length + rest.length) :
    let n := min (cString src).length (len - done.length)
    copyLoop len src done.length (done ++ rest) =
      if done.length + n < 2 ^ 31 then some (done.length + n,
        done ++ (cString src).take n ++ rest.drop n) else none := by
  induction src generalizing done rest with
  | nil => simpa [copyLoop] using hdone
  | cons c src ih =>
    intro n
    by_cases hcopy : done.length < len ∧ c ≠ '\x00'
    · obtain ⟨hlt, hc⟩ := hcopy
      obtain ⟨old, rest, rfl⟩ := List.exists_cons_of_length_pos (l := rest) (by omega)
      rw [List.length_cons] at hlen
      have hn : n = min (cString src).length (len - (done.length + 1)) + 1 := by
        simp only [n, cString_cons hc, List.length_cons]
        omega
      have hset : (done ++ old :: rest).set done.length c = (done ++ [c]) ++ rest := by simp
      rw [copyLoop, if_pos ⟨hlt, hc⟩, hset]
      by_cases hnext : done.length + 1 < 2 ^ 31
      · have hrun := ih (done ++ [c]) rest (by simpa using hnext)
          (by rw [List.length_append, List.length_singleton]; omega)
        rw [List.length_append, List.length_singleton] at hrun
        rw [if_pos hnext, hrun, hn, cString_cons hc, List.take_succ_cons, List.drop_succ_cons]
        simp only [List.append_assoc, List.singleton_append, Nat.add_assoc, Nat.add_comm 1]
      · rw [if_neg hnext, if_neg (by omega)]
    · have hn : n = 0 := by
        by_cases hc : c = '\x00'
        · simp [n, hc]
        · have : len ≤ done.length := by
            by_contra hlt
            exact hcopy ⟨by omega, hc⟩
          omega
      rw [copyLoop, if_neg hcopy, hn, Nat.add_zero, if_pos hdone, List.take_zero, List.append_nil, List.drop_zero]

theorem filled_append_eq (s : Text) (len : Nat) (rest : Text) :
    s.take (min s.length len) ++ (List.replicate len '\x00' ++ rest).drop (min s.length len) =
    filled s len ++ rest := by
  have hdrop : (List.replicate len '\x00' ++ rest).drop (min s.length len) =
      List.replicate (len - s.length) '\x00' ++ rest := by
    rw [List.drop_append_of_le_length (by rw [List.length_replicate]; omega), List.drop_replicate,
      show len - min s.length len = len - s.length by omega]
  have htake : s.take (min s.length len) = s.take len := by
    rw [Nat.min_comm, ← List.take_eq_take_min]
  rw [hdrop, htake, filled, List.append_assoc]

theorem set_filled (h : s.length < len) (rest : Text) :
    (filled s len ++ rest).set s.length '\x00' = filled s len ++ rest := by
  rw [filled, List.take_of_length_le h.le, show len - s.length = len - s.length - 1 + 1 by omega, List.replicate_succ,
    List.append_assoc, List.cons_append, List.set_append_right _ _ le_rfl, Nat.sub_self, List.set_cons_zero]

/-- The answer and the memory, for any source and any buffer. -/
theorem safecopy_eq (dest src : Text) (len : Nat) :
    safecopy dest (some src) len =
      if min (cString src).length len < 2 ^ 31 then
        some (if (cString src).length < len then ((cString src).length : Int) else -1,
          filled (cString src) len ++ dest.drop len)
      else none := by
  have hrun := copyLoop_eq src [] (List.replicate len '\x00' ++ dest.drop len) (by decide)
    (show len ≤ _ by rw [List.length_append, List.length_replicate, List.length_nil]; omega)
  simp only [List.length_nil, List.nil_append, Nat.zero_add, Nat.sub_zero, filled_append_eq] at hrun
  unfold safecopy
  simp only [hrun]
  by_cases hint : min (cString src).length len < 2 ^ 31
  · simp only [if_pos hint]
    by_cases hfit : (cString src).length < len
    · rw [if_neg (by omega), if_pos hfit, Nat.min_eq_left hfit.le, set_filled hfit]
    · rw [if_pos (by omega), if_neg hfit]
  · simp only [if_neg hint]

/-- **When a copy is safe**: the source fits with its null, and its length fits the counter. -/
theorem safe_iff (dest src : Text) (len : Nat) :
    Safe dest src len ↔ (cString src).length < len ∧ (cString src).length < 2 ^ 31 := by
  have hnull := null_notMem_cString src
  have htake : (filled (cString src) len ++ dest.drop len).take len = filled (cString src) len :=
    List.take_left' (length_filled _ len)
  unfold Safe
  rw [safecopy_eq]
  constructor
  · rintro ⟨ret, dest', hcopy, hmem, -⟩
    by_cases hint : min (cString src).length len < 2 ^ 31
    · rw [if_pos hint, Option.some.injEq, Prod.mk.injEq] at hcopy
      rw [← hcopy.2, htake, null_mem_filled_iff hnull] at hmem
      omega
    · rw [if_neg hint] at hcopy
      cases hcopy
  · rintro ⟨hfit, hint⟩
    rw [if_pos (by omega)]
    refine ⟨_, _, rfl, ?_⟩
    rw [htake, cString_filled hnull, null_mem_filled_iff hnull, List.take_of_length_le hfit.le]
    exact ⟨hfit, List.prefix_rfl, fun _ => rfl⟩

/-- A category of sixteen letters fills its field and has no null. -/
theorem category_not_safe : ¬ Safe (List.replicate 48 '\x00') "entertainment-tv".toList 16 := by
  rintro ⟨ret, dest', hcopy, hmem, -⟩
  have hfull : safecopy (List.replicate 48 '\x00') (some "entertainment-tv".toList) 16 =
      some (-1, "entertainment-tv".toList ++ List.replicate 32 '\x00') := by decide
  rw [hfull, Option.some.injEq, Prod.mk.injEq] at hcopy
  rw [← hcopy.2] at hmem
  exact absurd hmem (by decide)

/-! ## Fields side by side -/

/-- The memory after a copy to each of some fields of `len` bytes, such as the categories of a listing. -/
def copyFields (len : Nat) : List Text → Text → Option Text
  | [], mem => some mem
  | src :: srcs, mem =>
    (safecopy mem (some src) len).bind fun copied =>
      (copyFields len srcs (copied.2.drop len)).map (copied.2.take len ++ ·)

theorem copyFields_eq (hlen : len < 2 ^ 31) (srcs : List Text) (mem : Text) :
    copyFields len srcs mem =
      some (srcs.flatMap (fun src => filled (cString src) len) ++ mem.drop (srcs.length * len)) := by
  induction srcs generalizing mem with
  | nil => simp [copyFields]
  | cons src srcs ih =>
    have hfilled := length_filled (cString src) len
    have hhere : (filled (cString src) len ++ mem.drop len).take len = filled (cString src) len :=
      List.take_left' hfilled
    have hnext : (filled (cString src) len ++ mem.drop len).drop len = mem.drop len := List.drop_left' hfilled
    rw [copyFields, safecopy_eq, if_pos (by omega)]
    simp only [Option.bind_some, hhere, hnext]
    rw [ih, List.drop_drop, List.flatMap_cons, List.append_assoc, List.length_cons, Nat.succ_mul, Nat.add_comm len]
    rfl

theorem cString_fields {long : List Text} (hlong : ∀ src ∈ long, len ≤ (cString src).length)
    (hfit : (cString src).length < len) (rest : Text) :
    cString ((long ++ [src]).flatMap (fun src => filled (cString src) len) ++ rest) =
      long.flatMap (fun src => (cString src).take len) ++ cString src := by
  induction long with
  | nil =>
    have hread := cString_filled_append (null_notMem_cString src) len rest
    rw [if_pos hfit] at hread
    simpa using hread
  | cons first long ih =>
    have hfirst := hlong first List.mem_cons_self
    rw [List.cons_append, List.flatMap_cons, List.append_assoc, cString_filled_append (null_notMem_cString first),
      if_neg (by omega), ih fun src hsrc => hlong src (List.mem_cons_of_mem _ hsrc), List.flatMap_cons,
      List.append_assoc]

/-- **Fields too short for their texts are read as one**, up to the first one with room. -/
theorem copyFields_read (hlen : len < 2 ^ 31) {long : List Text} (hlong : ∀ src ∈ long, len ≤ (cString src).length)
    (hfit : (cString src).length < len) (mem : Text) :
    (copyFields len (long ++ [src]) mem).map cString =
      some (long.flatMap (fun src => (cString src).take len) ++ cString src) := by
  rw [copyFields_eq hlen, Option.map_some, cString_fields hlong hfit]

/-! ## The copies of the other modules -/

theorem gateway_safecopy_eq (h : '\x00' ∉ s) (len : Nat) : Gateway.safecopy s len = cString (filled s len) :=
  (cString_filled h len).symm

theorem safecopyBytes_eq (s : Text) (len : Nat) :
    Server.safecopyBytes s len = Protocol.textBytes (filled s len) := by
  simp [Server.safecopyBytes, Protocol.textBytes, filled]

theorem extractCJSONStr_eq {json obj : Json} {field : Text} {max : Nat}
    (hobj : Json.getObjectItem json field = some obj) (h : '\x00' ∉ Json.copyCJSON (some obj)) (hmax : max < 2 ^ 31)
    (dest : Text) :
    ∃ dest', safecopy dest (some (Json.copyCJSON (some obj))) max =
    some ((Json.extractCJSONStr max json field).1, dest') ∧
      cString (dest'.take max) = (Json.extractCJSONStr max json field).2 := by
  have hstr := cString_of_notMem h
  have hcopy := safecopy_eq dest (Json.copyCJSON (some obj)) max
  rw [hstr, if_pos (by omega)] at hcopy
  unfold Json.extractCJSONStr
  rw [hobj]
  refine ⟨_, hcopy, ?_⟩
  rw [List.take_left' (length_filled _ max), cString_filled h]

end NXTServices.Safecopy
