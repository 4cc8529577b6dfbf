import NXTServices.Serverloop

/-!
# The reply of a server: `wait_for_serverdata` of `utils/NXTsock.h`

* `recv`, `stream` : the bytes of the peer, split as they come;
* `waitForServerdata` : the loop, with the number of bytes that are stored;
* `retsize` : the size that the header of a reply gives;
* `waitForServerdata_total_le_iff` : the replies that stay within the caller's buffer.
-/

namespace NXTServices.Server
open Protocol

/-! ## What the peer sends -/

/-- The bytes of the peer, as they come. -/
abbrev Segments := List (List (BitVec 8))

/-- Up to `asked` bytes of the first segment, and what is left. A closed connection gives none. -/
def recv (asked : Nat) : Segments → List (BitVec 8) × Segments
  | [] => ([], [])
  | seg :: segs => (seg.take asked, if seg.length ≤ asked then segs else seg.drop asked :: segs)

/-- The bytes before the connection is closed, which is an empty segment or the end. -/
def stream : Segments → List (BitVec 8)
  | [] => []
  | seg :: segs => if seg = [] then [] else seg ++ stream segs

section
variable {asked : Nat} {segs : Segments}

theorem length_recv_le : (recv asked segs).1.length ≤ asked := by
  cases segs with
  | nil => exact Nat.zero_le _
  | cons seg segs => exact List.length_take_le _ _

theorem stream_of_recv_ne (h : (recv asked segs).1 ≠ []) :
    stream segs = (recv asked segs).1 ++ stream (recv asked segs).2 := by
  cases segs with
  | nil => exact absurd rfl h
  | cons seg segs =>
    have hseg : seg ≠ [] := by
      rintro rfl
      exact h List.take_nil
    simp only [recv, stream, if_neg hseg]
    split
    · next hle => rw [List.take_of_length_le hle]
    · next hlt =>
      have hrest : seg.drop asked ≠ [] := by
        rw [ne_eq, List.drop_eq_nil_iff]
        exact hlt
      rw [stream, if_neg hrest, ← List.append_assoc, List.take_append_drop]

theorem stream_of_recv_nil (hasked : 0 < asked) (h : (recv asked segs).1 = []) : stream segs = [] := by
  cases segs with
  | nil => rfl
  | cons seg segs =>
    have hseg : seg = [] := (List.take_eq_nil_iff.mp h).resolve_left (by omega)
    rw [stream, if_pos hseg]

theorem length_stream_lt (h : (recv asked segs).1 ≠ []) :
    (stream (recv asked segs).2).length < (stream segs).length := by
  have hpos := List.length_pos_iff.mpr h
  rw [stream_of_recv_ne h, List.length_append]
  omega

end

/-! ## The loop -/

/-- `total` is the number of bytes stored, and `rc` the result. -/
structure Waited where
  buffer : Buf
  total : Nat
  rc : Int

/-- `len` after a `recv`: once there is a header, it is the size that this gives. -/
def nextLen (len : Int) (total : Nat) (buffer : Buf) : Int :=
  if sizeofHeader ≤ total ∧ int32At buffer 0 ≠ len then int32At buffer 0 else len

def waitLoop (len : Int) (total : Nat) (buffer : Buf) (segs : Segments) : Waited :=
  if total < len then
    let chunk := (recv (len - total).toNat segs).1
    if chunk = [] then { buffer := buffer, total := total, rc := -1 }
    else
      let buffer := overlay buffer total chunk
      waitLoop (nextLen len (total + chunk.length) buffer) (total + chunk.length) buffer
        (recv (len - total).toNat segs).2
  else { buffer := buffer, total := total, rc := total }
termination_by (stream segs).length
decreasing_by exact length_stream_lt ‹_›

def waitForServerdata (buffer : Buf) (len : Int) (segs : Segments) : Waited := waitLoop len 0 buffer segs

/-! ## What is stored -/

/-- The size in the header at the front of `bytes`. -/
def retsize (bytes : List (BitVec 8)) : Int := int32At (overlay (fun _ => 0#8) 0 bytes) 0

theorem overlay_append (buf : Buf) (xs ys : List (BitVec 8)) :
    overlay (overlay buf 0 xs) xs.length ys = overlay buf 0 (xs ++ ys) := by
  funext k
  by_cases hk : k < xs.length
  · rw [overlay_of_lt hk, overlay_of_mem (Nat.zero_le k) (by omega) 0#8,
      overlay_of_mem (Nat.zero_le k) (by rw [List.length_append]; omega) 0#8, Nat.sub_zero, List.getD_append _ _ _ _ hk]
  · by_cases hlast : k < xs.length + ys.length
    · rw [overlay_of_mem (by omega) hlast 0#8,
        overlay_of_mem (Nat.zero_le k) (by rw [List.length_append]; omega) 0#8, Nat.sub_zero,
        List.getD_append_right _ _ _ _ (by omega)]
    · rw [overlay_of_le (by omega), overlay_of_le (by omega), overlay_of_le (by rw [List.length_append]; omega)]

theorem int32At_overlay {bytes : List (BitVec 8)} (h : 4 ≤ bytes.length) (buf : Buf) :
    int32At (overlay buf 0 bytes) 0 = retsize bytes :=
  (agree_overlay buf (fun _ => 0#8) bytes).int32At h

theorem retsize_append {xs : List (BitVec 8)} (h : 4 ≤ xs.length) (ys : List (BitVec 8)) :
    retsize (xs ++ ys) = retsize xs := by
  unfold retsize
  rw [← overlay_append]
  have hfront : Agree xs.length (overlay (overlay (fun _ => 0#8) 0 xs) xs.length ys) (overlay (fun _ => 0#8) 0 xs) :=
    fun k hk => overlay_of_lt hk
  exact hfront.int32At h

theorem nextLen_of_header {got : List (BitVec 8)} (h : 16 ≤ got.length) (len : Int) (buf : Buf) :
    nextLen len got.length (overlay buf 0 got) = retsize got := by
  unfold nextLen sizeofHeader
  rw [int32At_overlay (by omega)]
  split
  · rfl
  · next hsame =>
    by_contra hne
    exact hsame ⟨by omega, Ne.symm hne⟩

theorem nextLen_of_short {total : Nat} (h : total < 16) (len : Int) (buffer : Buf) :
    nextLen len total buffer = len := by
  unfold nextLen sizeofHeader
  exact if_neg fun hlong => absurd hlong.1 (by omega)

section
variable (buf : Buf) {got : List (BitVec 8)} (segs : Segments)

/-- One round, with the bytes `got` before it. -/
theorem waitLoop_step {len : Int} (hlt : got.length < len) :
    (∃ chunk, chunk ≠ [] ∧ (chunk.length : Int) ≤ len - got.length ∧ ∃ rest, stream segs = chunk ++ stream rest ∧
        (stream rest).length < (stream segs).length ∧
        waitLoop len got.length (overlay buf 0 got) segs =
          waitLoop (nextLen len (got ++ chunk).length (overlay buf 0 (got ++ chunk))) (got ++ chunk).length
            (overlay buf 0 (got ++ chunk)) rest) ∨
      (stream segs = [] ∧ (waitLoop len got.length (overlay buf 0 got) segs).total = got.length) := by
  have hasked : 0 < (len - got.length).toNat := by omega
  by_cases hchunk : (recv (len - got.length).toNat segs).1 = []
  · refine .inr ⟨stream_of_recv_nil hasked hchunk, ?_⟩
    rw [waitLoop, if_pos hlt]
    dsimp only
    rw [if_pos hchunk]
  · have hle : (recv (len - got.length).toNat segs).1.length ≤ (len - got.length).toNat := length_recv_le
    refine .inl ⟨_, hchunk, by omega, _, stream_of_recv_ne hchunk, length_stream_lt hchunk, ?_⟩
    conv_lhs => rw [waitLoop]
    rw [if_pos hlt]
    dsimp only
    rw [if_neg hchunk, overlay_append, ← List.length_append]

/-- Once the header is there, the loop goes on up to the size that it gives, or to the last byte. -/
theorem waitLoop_total_of_header (h : 16 ≤ got.length) :
    (waitLoop (retsize got) got.length (overlay buf 0 got) segs).total =
      max got.length (min (retsize got).toNat (got ++ stream segs).length) := by
  induction hn : (stream segs).length using Nat.strong_induction_on generalizing got segs with
  | _ n ih =>
    by_cases hlt : got.length < retsize got
    · rcases waitLoop_step buf segs hlt with
        ⟨chunk, -, hle, rest, hstream, hless, hloop⟩ | ⟨hnone, htotal⟩
      · have hlong : 16 ≤ (got ++ chunk).length := by rw [List.length_append]; omega
        have hsize : retsize (got ++ chunk) = retsize got := retsize_append (by omega) chunk
        have hlength : (got ++ chunk ++ stream rest).length = (got ++ chunk).length + (stream rest).length :=
          List.length_append
        rw [hloop, nextLen_of_header hlong, ih _ (hn ▸ hless) _ hlong rfl, hsize, hstream, List.append_assoc,
          ← List.append_assoc got, hlength]
        simp only [List.length_append] at hlong ⊢
        omega
      · rw [htotal, hnone, List.append_nil]
        omega
    · rw [waitLoop, if_neg hlt]
      simp only [List.length_append]
      omega

/-- While the header is not there, `len` is the caller's. -/
theorem waitLoop_total_le_iff {len : Nat} (hshort : got.length < 16) (hle : got.length ≤ len) :
    (waitLoop len got.length (overlay buf 0 got) segs).total ≤ len ↔
      len < 16 ∨ (got ++ stream segs).length ≤ len ∨ retsize (got ++ stream segs) ≤ len := by
  induction hn : (stream segs).length using Nat.strong_induction_on generalizing got segs with
  | _ n ih =>
    by_cases hlt : (got.length : Int) < len
    · rcases waitLoop_step buf segs hlt with
        ⟨chunk, -, hchunk, rest, hstream, hless, hloop⟩ | ⟨hnone, htotal⟩
      · have hfits : (got ++ chunk).length ≤ len := by rw [List.length_append]; omega
        rw [hloop, hstream, ← List.append_assoc]
        by_cases hheader : (got ++ chunk).length < 16
        · rw [nextLen_of_short hheader]
          exact ih _ (hn ▸ hless) _ hheader hfits rfl
        · have hsize : retsize (got ++ chunk ++ stream rest) = retsize (got ++ chunk) :=
            retsize_append (by omega) (stream rest)
          rw [nextLen_of_header (by omega), waitLoop_total_of_header _ _ (by omega), hsize]
          omega
      · rw [htotal, hnone, List.append_nil]
        exact iff_of_true hle (.inr (.inl hle))
    · rw [waitLoop, if_neg hlt]
      exact iff_of_true hle (.inl (by omega))

theorem waitForServerdata_eq (buffer : Buf) (len : Nat) (segs : Segments) :
    waitForServerdata buffer len segs = waitLoop len ([] : List (BitVec 8)).length (overlay buffer 0 []) segs := by
  have hempty : overlay buffer 0 [] = buffer := funext fun k => overlay_of_le (Nat.zero_le k)
  rw [hempty]
  rfl

end

/-- **Which replies stay within the caller's `len` bytes**, however they are split: the buffer is shorter than a header,
no more bytes than that come, or the size in the header is no larger. -/
theorem waitForServerdata_total_le_iff (buffer : Buf) (len : Nat) (segs : Segments) :
    (waitForServerdata buffer len segs).total ≤ len ↔
      len < 16 ∨ (stream segs).length ≤ len ∨ retsize (stream segs) ≤ len := by
  rw [waitForServerdata_eq]
  exact waitLoop_total_le_iff buffer segs (by decide) (Nat.zero_le len)

/-- A reply of 32 bytes, which is also the size that its header gives. -/
def longReply : List (BitVec 8) := 32#8 :: List.replicate 31 0#8

/-- It is stored whole where the caller has room for 24. -/
theorem not_forall_total_le : ¬ ∀ (buffer : Buf) (len : Nat) (segs : Segments),
    (waitForServerdata buffer len segs).total ≤ len := by
  intro h
  have hstored := h (fun _ => 0#8) 24 [longReply]
  rw [waitForServerdata_eq] at hstored
  exact absurd ((waitLoop_total_le_iff _ _ (by decide) (by decide)).mp hstored) (by decide)

end NXTServices.Server
