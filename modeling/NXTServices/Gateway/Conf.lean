import NXTServices.Text
import Mathlib.Data.List.Forall2
import Mathlib.Data.List.Permutation

/-!
# The configuration of a coin daemon: `extract_userpass` of `daemon.h`

* `fgets`, `readLoop` : the pieces in which a file is read;
* `stripstr`, `clonestr`, `parseConfLine`, `confStep`, `extractUserpass` : what is made of them;
* `Chunks`, `readLoop_splitOn` : the pieces of each line;
* `countC_confStep`, `countC_foldl` : **no value holds more letters than its piece**, which tells the pieces that count;
* `Entry`, `Entry.Intact`, `firstValue_eq_iff` : the lines of the user and the password, and which are read whole;
* `extractUserpass_eq_iff` : which files give the user and the password.
-/

namespace NXTServices.Gateway

/-! ## Reading a file -/

/-- `fgets` with room for `n` characters: what it reads and the rest of the file. -/
def fgets : Nat → Text → Text × Text
  | 0, file => ([], file)
  | _ + 1, [] => ([], [])
  | n + 1, c :: file => if c = '\n' then ([c], file) else (c :: (fgets n file).1, (fgets n file).2)

/-- The calls of `fgets` with `char line[1024]`. -/
def readLoop : Nat → Text → List Text
  | 0, _ => []
  | _ + 1, [] => []
  | fuel + 1, c :: file => (fgets 1023 (c :: file)).1 :: readLoop fuel (fgets 1023 (c :: file)).2

/-- The text from the first place on where the word stands. -/
def strstr (s word : Text) : Option Text := s.tails.find? word.isPrefixOf

/-- The characters that `stripstr` leaves out. -/
def isStripped (c : Char) : Bool := c = ' ' ∨ c = '\n' ∨ c = '\r' ∨ c = '\t' ∨ c = '"'

def stripstr (buf : Text) : Text := buf.filter fun c => !isStripped c

def nullstr : Text := "<nullstr>".toList

def clonestr (str : Text) : Text := if str = [] then nullstr else str

/-- The loop that looks for the separator stops at once. -/
def parseConfLine (line field : Text) : Option Text :=
  match line.drop field.length with
  | [] => none
  | c :: line => some (clonestr (stripstr (if c = '=' then line else c :: line)))

def rpcuser : Text := "rpcuser".toList

def rpcpassword : Text := "rpcpassword".toList

/-- The user and the password after one more piece of the file. -/
def confStep (s : Option Text × Option Text) (line : Text) : Option Text × Option Text :=
  match strstr line rpcuser with
  | some str => (parseConfLine str rpcuser, s.2)
  | none =>
    match strstr line rpcpassword with
    | some str => (s.1, parseConfLine str rpcpassword)
    | none => s

/-- What stands in `userpass`, which has `size` characters; `none` is a write behind its end. -/
def extractUserpass (size : Nat) (file : Text) : Option Text :=
  match (readLoop file.length file).foldl confStep (none, none) with
  | (some user, some password) =>
    if (user ++ ':' :: password).length < size then some (user ++ ':' :: password) else none
  | _ => some []

/-! ## The pieces of a line -/

/-- The pieces of a line, of which only the last one has its end. -/
def Chunks (cs : List Text) (line : Text) : Prop :=
  ∃ nl, (nl = [] ∨ nl = ['\n']) ∧ cs.flatten = line ++ nl ∧
    (line ≠ [] → ∃ rest, cs = (line ++ nl).take 1023 :: rest)

theorem fgets_short {n : Nat} {line : Text} (hline : '\n' ∉ line) (h : line.length < n) (more : Text) :
    fgets n (line ++ '\n' :: more) = (line ++ ['\n'], more) := by
  induction line generalizing n with
  | nil =>
    obtain ⟨n, rfl⟩ := Nat.exists_eq_add_one_of_ne_zero (Nat.ne_of_gt h)
    rfl
  | cons c line ih =>
    obtain ⟨n, rfl⟩ := Nat.exists_eq_add_one_of_ne_zero (Nat.ne_of_gt (Nat.zero_lt_of_lt h))
    obtain ⟨hc, hline⟩ := List.ne_and_not_mem_of_not_mem_cons hline
    rw [List.cons_append, fgets, if_neg (Ne.symm hc), ih hline (Nat.lt_of_succ_lt_succ h)]
    rfl

theorem fgets_long {n : Nat} {line : Text} (hline : '\n' ∉ line) (h : n ≤ line.length) (more : Text) :
    fgets n (line ++ more) = (line.take n, line.drop n ++ more) := by
  induction line generalizing n with
  | nil =>
    obtain rfl : n = 0 := Nat.le_zero.mp h
    rfl
  | cons c line ih =>
    cases n with
    | zero => rfl
    | succ n =>
      obtain ⟨hc, hline⟩ := List.ne_and_not_mem_of_not_mem_cons hline
      rw [List.cons_append, fgets, if_neg (Ne.symm hc), ih hline (Nat.le_of_succ_le_succ h)]
      rfl

theorem fgets_end {n : Nat} {line : Text} (hline : '\n' ∉ line) (h : line.length ≤ n) :
    fgets n line = (line, []) := by
  induction line generalizing n with
  | nil => cases n <;> rfl
  | cons c line ih =>
    obtain ⟨n, rfl⟩ := Nat.exists_eq_add_one_of_ne_zero (Nat.ne_of_gt (Nat.zero_lt_of_lt h))
    obtain ⟨hc, hline⟩ := List.ne_and_not_mem_of_not_mem_cons hline
    rw [fgets, if_neg (Ne.symm hc), ih hline (Nat.le_of_succ_le_succ h)]

theorem readLoop_succ {fuel : Nat} {file : Text} (h : file ≠ []) :
    readLoop (fuel + 1) file = (fgets 1023 file).1 :: readLoop fuel (fgets 1023 file).2 := by
  obtain ⟨c, file, rfl⟩ := List.exists_cons_of_ne_nil h
  rfl

/-- A line that is followed by another one. -/
theorem readLoop_line {line : Text} (hline : '\n' ∉ line) (more : Text) {fuel : Nat}
    (hfuel : line.length + 1 + more.length ≤ fuel) :
    ∃ rest fuel', more.length ≤ fuel' ∧ rest.flatten = (line ++ ['\n']).drop 1023 ∧
      readLoop fuel (line ++ '\n' :: more) = ((line ++ ['\n']).take 1023 :: rest) ++ readLoop fuel' more := by
  induction hlen : line.length using Nat.strongRecOn generalizing line fuel with
  | ind len ih =>
    obtain ⟨fuel, rfl⟩ := Nat.exists_eq_add_one_of_ne_zero (n := fuel) (by omega)
    have hne : line ++ '\n' :: more ≠ [] := List.append_ne_nil_of_right_ne_nil _ (List.cons_ne_nil _ _)
    rw [readLoop_succ hne]
    by_cases hshort : line.length < 1023
    · refine ⟨[], fuel, by omega, ?_, ?_⟩
      · rw [List.drop_eq_nil_of_le (by rw [List.length_append]; exact hshort)]
        rfl
      · rw [fgets_short hline hshort, List.take_of_length_le (by rw [List.length_append]; exact hshort)]
        rfl
    · have hlong : 1023 ≤ line.length := Nat.le_of_not_lt hshort
      have hdrop : (line.drop 1023).length = line.length - 1023 := List.length_drop
      have hfuel' : (line.drop 1023).length + 1 + more.length ≤ fuel := by omega
      obtain ⟨rest, fuel', hmore, hflat, hread⟩ := ih (line.drop 1023).length (by omega)
        (fun hmem => hline (List.mem_of_mem_drop hmem)) hfuel' rfl
      refine ⟨(line.drop 1023 ++ ['\n']).take 1023 :: rest, fuel', hmore, ?_, ?_⟩
      · rw [List.flatten_cons, hflat, List.take_append_drop, List.drop_append_of_le_length hlong]
      · rw [fgets_long hline hlong, hread, List.take_append_of_le_length hlong]
        rfl

/-- The last line. -/
theorem readLoop_last {line : Text} (hline : '\n' ∉ line) {fuel : Nat} (hfuel : line.length ≤ fuel) :
    (readLoop fuel line).flatten = line ∧ (line ≠ [] → ∃ rest, readLoop fuel line = line.take 1023 :: rest) := by
  induction fuel generalizing line with
  | zero =>
    obtain rfl := List.length_eq_zero_iff.mp (Nat.le_zero.mp hfuel)
    exact ⟨rfl, fun h => absurd rfl h⟩
  | succ fuel ih =>
    by_cases hne : line = []
    · subst hne
      exact ⟨rfl, fun h => absurd rfl h⟩
    · rw [readLoop_succ hne]
      by_cases hshort : line.length ≤ 1023
      · rw [fgets_end hline hshort, List.take_of_length_le hshort]
        have hrest : readLoop fuel [] = [] := by cases fuel <;> rfl
        rw [hrest]
        exact ⟨List.append_nil line, fun _ => ⟨[], rfl⟩⟩
      · have hlong : 1023 ≤ line.length := Nat.le_of_not_le hshort
        have hdrop : (line.drop 1023).length = line.length - 1023 := List.length_drop
        have hfgets := fgets_long hline hlong []
        rw [List.append_nil, List.append_nil] at hfgets
        rw [hfgets, List.flatten_cons,
          (ih (fun hmem => hline (List.mem_of_mem_drop hmem)) (by omega)).1, List.take_append_drop]
        exact ⟨rfl, fun _ => ⟨_, rfl⟩⟩

/-- **A file is read line by line**, each in its pieces. -/
theorem readLoop_splitOn (file : Text) {fuel : Nat} (hfuel : file.length ≤ fuel) :
    ∃ css, readLoop fuel file = css.flatten ∧ List.Forall₂ Chunks css (file.splitOn '\n') := by
  induction hlen : file.length using Nat.strongRecOn generalizing file fuel with
  | ind len ih =>
    by_cases hmem : '\n' ∈ file
    · obtain ⟨line, more, rfl, hline⟩ := List.eq_append_cons_of_mem hmem
      rw [List.length_append, List.length_cons] at hfuel hlen
      have hfuel' : line.length + 1 + more.length ≤ fuel := by omega
      obtain ⟨rest, fuel', hmore, hflat, hread⟩ := readLoop_line hline more hfuel'
      obtain ⟨css, hcss, hall⟩ := ih more.length (by omega) more hmore rfl
      refine ⟨((line ++ ['\n']).take 1023 :: rest) :: css, ?_, ?_⟩
      · rw [hread, hcss, List.flatten_cons]
      · rw [List.splitOn_append_cons_self_of_not_mem hline]
        refine .cons ⟨['\n'], .inr rfl, ?_, fun _ => ⟨rest, rfl⟩⟩ hall
        rw [List.flatten_cons, hflat, List.take_append_drop]
    · obtain ⟨hflat, hhead⟩ := readLoop_last hmem hfuel
      refine ⟨[readLoop fuel file], (List.append_nil _).symm, ?_⟩
      rw [List.splitOn_eq_singleton hmem]
      refine .cons ⟨[], .inl rfl, ?_, ?_⟩ .nil
      · rw [hflat, List.append_nil]
      · rw [List.append_nil]
        exact hhead

/-! ## What a piece gives -/

/-- A piece with one of the two words. -/
def worded (line : Text) : Bool := (strstr line rpcuser).isSome || (strstr line rpcpassword).isSome

theorem strstr_isSome (s word : Text) : (strstr s word).isSome ↔ word <:+: s := by
  rw [strstr, List.find?_isSome, List.infix_iff_prefix_suffix]
  simp only [List.mem_tails, List.isPrefixOf_iff_prefix, and_comm]

theorem strstr_eq_none (s word : Text) : strstr s word = none ↔ ¬ word <:+: s := by
  rw [← strstr_isSome, Option.not_isSome_iff_eq_none]

theorem strstr_eq_some {s word str : Text} (h : strstr s word = some str) : ∃ before rest, s = before ++ word ++ rest ∧
    str = word ++ rest := by
  obtain ⟨rest, hrest⟩ := List.isPrefixOf_iff_prefix.mp (List.find?_some h)
  obtain ⟨before, hbefore⟩ := (List.mem_tails _ _).mp (List.mem_of_find?_eq_some h)
  exact ⟨before, rest, by rw [List.append_assoc, hrest, hbefore], hrest.symm⟩

theorem strstr_append (word rest : Text) : strstr (word ++ rest) word = some (word ++ rest) := by
  have hprefix : word.isPrefixOf (word ++ rest) := List.isPrefixOf_iff_prefix.mpr (List.prefix_append _ _)
  rw [strstr]
  cases hs : word ++ rest with
  | nil =>
    rw [hs] at hprefix
    exact List.find?_cons_of_pos hprefix
  | cons c cs =>
    rw [hs] at hprefix
    exact List.find?_cons_of_pos hprefix

theorem worded_iff (line : Text) : worded line ↔ rpcuser <:+: line ∨ rpcpassword <:+: line := by
  rw [worded, Bool.or_eq_true, strstr_isSome, strstr_isSome]

theorem confStep_of_not_worded {line : Text} (h : ¬ worded line) (s : Option Text × Option Text) :
    confStep s line = s := by
  rw [worded_iff, not_or, ← strstr_eq_none, ← strstr_eq_none] at h
  rw [confStep, h.1, h.2]

theorem foldl_confStep (cs : List Text) (s : Option Text × Option Text) :
    cs.foldl confStep s = (cs.filter worded).foldl confStep s := by
  induction cs generalizing s with
  | nil => rfl
  | cons c cs ih =>
    rw [List.foldl_cons, ih]
    by_cases hc : worded c
    · rw [List.filter_cons_of_pos hc, List.foldl_cons]
    · rw [List.filter_cons_of_neg hc, confStep_of_not_worded hc]

/-- The letters `c` of a value. -/
def countC (value : Option Text) : Nat := (value.getD []).count 'c'

theorem parseConfLine_append (field : Text) {rest : Text} (h : rest ≠ []) :
    parseConfLine (field ++ rest) field =
      some (clonestr (stripstr (if rest.head? = some '=' then rest.tail else rest))) := by
  obtain ⟨c, rest, rfl⟩ := List.exists_cons_of_ne_nil h
  rw [parseConfLine, List.drop_left]
  simp only [List.head?_cons, Option.some.injEq, List.tail_cons]

theorem count_clonestr (str : Text) : (clonestr str).count 'c' = str.count 'c' := by
  unfold clonestr
  split
  · next h =>
    subst h
    rfl
  · rfl

theorem countC_parseConfLine (field rest : Text) : countC (parseConfLine (field ++ rest) field) ≤ rest.count 'c' := by
  by_cases h : rest = []
  · subst h
    rw [parseConfLine, List.append_nil, List.drop_length]
    exact Nat.zero_le _
  · rw [parseConfLine_append field h]
    have hsub : (stripstr (if rest.head? = some '=' then rest.tail else rest)).Sublist rest := by
      apply List.filter_sublist.trans
      split
      · exact List.tail_sublist rest
      · exact List.Sublist.refl rest
    show (clonestr _).count 'c' ≤ _
    rw [count_clonestr]
    exact hsub.count_le 'c'

theorem countC_found {line word str : Text} (hword : word.count 'c' = 1) (h : strstr line word = some str) :
    countC (parseConfLine str word) + 1 ≤ line.count 'c' := by
  obtain ⟨before, rest, hline, rfl⟩ := strstr_eq_some h
  have hvalue := countC_parseConfLine word rest
  rw [hline, List.count_append, List.count_append, hword]
  omega

theorem countC_confStep {line : Text} (h : worded line) (s : Option Text × Option Text) :
    countC (confStep s line).1 + countC (confStep s line).2 + 1 ≤ countC s.1 + countC s.2 + line.count 'c' := by
  rw [confStep]
  cases huser : strstr line rpcuser with
  | some str =>
    have hfound := countC_found rfl huser
    show countC (parseConfLine str rpcuser) + countC s.2 + 1 ≤ _
    omega
  | none =>
    cases hpassword : strstr line rpcpassword with
    | some str =>
      have hfound := countC_found rfl hpassword
      show countC s.1 + countC (parseConfLine str rpcpassword) + 1 ≤ _
      omega
    | none =>
      rw [worded, huser, hpassword] at h
      cases h

/-- **No more letters come out than go in**, one of each piece apart. -/
theorem countC_foldl {cs : List Text} (h : ∀ c ∈ cs, worded c) (s : Option Text × Option Text) :
    countC (cs.foldl confStep s).1 + countC (cs.foldl confStep s).2 + cs.length ≤
      countC s.1 + countC s.2 + cs.flatten.count 'c' := by
  induction cs generalizing s with
  | nil => exact le_rfl
  | cons c cs ih =>
    obtain ⟨hc, hcs⟩ := List.forall_mem_cons.mp h
    have hstep := countC_confStep hc s
    have hrest := ih hcs (confStep s c)
    rw [List.foldl_cons, List.flatten_cons, List.count_append, List.length_cons]
    omega

/-! ## The two lines -/

/-- The text behind a field: blanks, the separator, blanks and the value, which has no null inside. -/
structure Entry where
  gap₁ : Text
  gap₂ : Text
  value : Text
  blank₁ : ∀ c ∈ gap₁, c = ' ' ∨ c = '\t'
  blank₂ : ∀ c ∈ gap₂, c = ' ' ∨ c = '\t'
  value_ne : value ≠ []
  plain : ∀ c ∈ value, ¬ isSpace c ∧ c ≠ '"' ∧ c ≠ '\x00'

namespace Entry
variable (e : Entry) (field : Text)

def text : Text := e.gap₁ ++ '=' :: (e.gap₂ ++ e.value)

def line : Text := field ++ e.text

/-- The value that is read is the whole value: the separator follows the field and the line fits in one piece. Else the
value is the one that is made of an empty text, or it is one of separators, and the piece ends where this is what is
read. -/
def Intact : Prop :=
  if e.gap₁ = [] then
    (e.line field).length ≤ 1023 ∨ e.value = nullstr ∧ 1023 ≤ (field ++ '=' :: e.gap₂).length
  else
    e.value = nullstr ∧ 1023 ≤ (field ++ e.gap₁).length ∨
      e.value = List.replicate e.value.length '=' ∧ (field ++ e.gap₁).length < 1023 ∧
        e.value.length = 1023 - (field ++ (e.gap₁ ++ '=' :: e.gap₂)).length + 1

instance : Decidable (e.Intact field) := by
  unfold Intact
  infer_instance

variable {e field}

theorem isStripped_of_blank {c : Char} (h : c = ' ' ∨ c = '\t') : isStripped c := by
  rcases h with rfl | rfl <;> rfl

theorem isStripped_of_mem_value {c : Char} (h : c ∈ e.value) : ¬ isStripped c := by
  obtain ⟨hspace, hquote, -⟩ := e.plain c h
  intro hc
  rcases of_decide_eq_true hc with rfl | rfl | rfl | rfl | rfl
  · exact hspace rfl
  · exact hspace rfl
  · exact hspace rfl
  · exact hspace rfl
  · exact hquote rfl

theorem stripstr_append (a b : Text) : stripstr (a ++ b) = stripstr a ++ stripstr b := List.filter_append ..

theorem stripstr_eq_nil {s : Text} (h : ∀ c ∈ s, isStripped c) : stripstr s = [] :=
  List.filter_eq_nil_iff.mpr fun c hc => by simp [h c hc]

theorem stripstr_eq_self {s : Text} (h : ∀ c ∈ s, ¬ isStripped c) : stripstr s = s :=
  List.filter_eq_self.mpr fun c hc => by simp [h c hc]

theorem stripstr_take {gap nl : Text} (hgap : ∀ c ∈ gap, c = ' ' ∨ c = '\t') (hnl : nl = [] ∨ nl = ['\n']) (n : Nat) :
    stripstr ((gap ++ (e.value ++ nl)).take n) = e.value.take (n - gap.length) := by
  have hnl' : ∀ c ∈ nl, isStripped c := by
    rcases hnl with rfl | rfl
    · exact List.forall_mem_nil _
    · exact List.forall_mem_singleton.mpr rfl
  rw [List.take_append, List.take_append, stripstr_append, stripstr_append,
    stripstr_eq_nil fun c hc => isStripped_of_blank (hgap c (List.mem_of_mem_take hc)),
    stripstr_eq_self fun c hc => isStripped_of_mem_value (List.mem_of_mem_take hc),
    stripstr_eq_nil fun c hc => hnl' c (List.mem_of_mem_take hc), List.nil_append, List.append_nil]

/-- The value that the first piece of the line gives. -/
def firstValue (e : Entry) (field : Text) : Text :=
  clonestr
    (if e.gap₁ = [] then e.value.take (1023 - field.length - 1 - e.gap₂.length)
    else if 1023 - field.length ≤ e.gap₁.length then []
    else '=' :: e.value.take (1023 - field.length - e.gap₁.length - 1 - e.gap₂.length))

theorem parseConfLine_line {nl : Text} (hfield : field.length < 1023) (hnl : nl = [] ∨ nl = ['\n']) :
    parseConfLine ((e.line field ++ nl).take 1023) field = some (e.firstValue field) := by
  obtain ⟨n, hn⟩ := Nat.exists_eq_add_one_of_ne_zero (n := 1023 - field.length) (by omega)
  rw [line, List.append_assoc, List.take_append, List.take_of_length_le hfield.le, firstValue, hn]
  cases hgap : e.gap₁ with
  | nil =>
    have htext : (e.text ++ nl).take (n + 1) = '=' :: (e.gap₂ ++ (e.value ++ nl)).take n := by
      rw [text, hgap, List.nil_append, List.cons_append, List.take_succ_cons, List.append_assoc]
    rw [htext, parseConfLine_append field (List.cons_ne_nil _ _), if_pos List.head?_cons, if_pos rfl, List.tail_cons,
      stripstr_take e.blank₂ hnl]
    rfl
  | cons c gap =>
    have hc : c = ' ' ∨ c = '\t' := e.blank₁ c (hgap ▸ List.mem_cons_self)
    have hblank : ∀ d ∈ c :: gap.take n, isStripped d := fun d hd =>
      isStripped_of_blank (e.blank₁ d (hgap ▸ List.mem_of_mem_take (i := n + 1) hd))
    have htext : (e.text ++ nl).take (n + 1) =
        (c :: gap.take n) ++ ('=' :: (e.gap₂ ++ (e.value ++ nl))).take (n + 1 - (gap.length + 1)) := by
      rw [text, hgap, List.append_assoc, List.take_append, List.cons_append, List.append_assoc, List.length_cons,
        List.take_succ_cons]
    have hne : some c ≠ some '=' := by
      rcases hc with rfl | rfl <;> decide
    rw [htext, parseConfLine_append field (List.append_ne_nil_of_left_ne_nil (List.cons_ne_nil _ _) _),
      if_neg (by rwa [List.cons_append, List.head?_cons]), if_neg (List.cons_ne_nil _ _), stripstr_append,
      stripstr_eq_nil hblank, List.nil_append, List.length_cons]
    by_cases hlong : n + 1 ≤ gap.length + 1
    · rw [if_pos hlong, Nat.sub_eq_zero_of_le hlong]
      rfl
    · obtain ⟨k, hk⟩ := Nat.exists_eq_add_one_of_ne_zero (n := n + 1 - (gap.length + 1)) (by omega)
      rw [if_neg hlong, hk, List.take_succ_cons, ← stripstr_take e.blank₂ hnl]
      rfl

theorem clonestr_of_ne {s : Text} (h : s ≠ []) : clonestr s = s := if_neg h

/-- A start of the value is the value, or nothing of a value that is made of nothing. -/
theorem clonestr_take_eq_iff (k : Nat) :
    clonestr (e.value.take k) = e.value ↔ e.value.length ≤ k ∨ e.value = nullstr ∧ k = 0 := by
  by_cases hk : k = 0
  · have hlength := List.length_pos_of_ne_nil e.value_ne
    subst hk
    show nullstr = e.value ↔ _
    constructor
    · exact fun h => .inr ⟨h.symm, rfl⟩
    · rintro (h | ⟨h, -⟩)
      · omega
      · exact h.symm
  · have hne : e.value.take k ≠ [] := by
      rw [ne_eq, List.take_eq_nil_iff]
      exact not_or.mpr ⟨hk, e.value_ne⟩
    rw [clonestr_of_ne hne, List.take_eq_self_iff]
    exact ⟨.inl, fun h => h.resolve_right fun h => hk h.2⟩

/-- A value with a separator before it is itself only when it is one of separators. -/
theorem cons_take_eq_iff (V : Text) (k : Nat) :
    '=' :: V.take k = V ↔ V = List.replicate V.length '=' ∧ V.length = k + 1 := by
  induction V generalizing k with
  | nil => simp
  | cons c V ih =>
    cases k with
    | zero =>
      rw [List.take_zero, List.length_cons, List.replicate_succ, List.cons.injEq, List.cons.injEq]
      constructor
      · rintro ⟨rfl, rfl⟩
        exact ⟨⟨rfl, rfl⟩, rfl⟩
      · rintro ⟨⟨rfl, -⟩, hlength⟩
        exact ⟨rfl, (List.length_eq_zero_iff.mp (Nat.succ.inj hlength)).symm⟩
    | succ k =>
      have hrest := ih k
      rw [List.take_succ_cons, List.length_cons, List.replicate_succ, List.cons.injEq, List.cons.injEq, Nat.succ_inj]
      constructor
      · rintro ⟨rfl, h⟩
        exact ⟨⟨rfl, (hrest.mp h).1⟩, (hrest.mp h).2⟩
      · rintro ⟨⟨rfl, hall⟩, hlength⟩
        exact ⟨rfl, hrest.mpr ⟨hall, hlength⟩⟩

/-- **Which values are read whole.** -/
theorem firstValue_eq_iff (hfield : field.length < 1023) : e.firstValue field = e.value ↔ e.Intact field := by
  have hpos := List.length_pos_of_ne_nil e.value_ne
  rw [firstValue, Intact]
  by_cases hgap : e.gap₁ = []
  · rw [if_pos hgap, if_pos hgap, clonestr_take_eq_iff, line, text, hgap]
    simp only [List.length_append, List.length_cons, List.nil_append]
    apply or_congr
    · omega
    · exact and_congr_right fun _ => by omega
  · rw [if_neg hgap, if_neg hgap]
    simp only [List.length_append, List.length_cons]
    by_cases hlong : 1023 - field.length ≤ e.gap₁.length
    · rw [if_pos hlong]
      show nullstr = e.value ↔ _
      constructor
      · exact fun h => .inl ⟨h.symm, by omega⟩
      · rintro (⟨h, -⟩ | ⟨-, h, -⟩)
        · exact h.symm
        · omega
    · rw [if_neg hlong, clonestr_of_ne (List.cons_ne_nil _ _), cons_take_eq_iff]
      constructor
      · exact fun ⟨hall, hlength⟩ => .inr ⟨hall, by omega, by omega⟩
      · rintro (⟨-, h⟩ | ⟨hall, -, hlength⟩)
        · omega
        · exact ⟨hall, by omega⟩

/-- What the first piece gives: a start of the value, maybe with the separator, or the text made of nothing. -/
def Given (V X : Text) : Prop := X = nullstr ∨ ∃ k, X = V.take k ∨ X = '=' :: V.take k

theorem given_firstValue (e : Entry) (field : Text) : Given e.value (e.firstValue field) := by
  have hclone (k : Nat) : Given e.value (clonestr (e.value.take k)) := by
    unfold clonestr
    split
    · exact .inl rfl
    · exact .inr ⟨k, .inl rfl⟩
  unfold firstValue
  split
  · exact hclone _
  · split
    · exact .inl rfl
    · exact .inr ⟨_, .inr rfl⟩

theorem Given.length_le {V X : Text} (h : Given V X) : X = nullstr ∨ X.length ≤ V.length ∨ X = '=' :: V := by
  rcases h with h | ⟨k, rfl | rfl⟩
  · exact .inl h
  · exact .inr (.inl (List.length_take_le' k V))
  · by_cases hk : V.length ≤ k
    · rw [List.take_of_length_le hk]
      exact .inr (.inr rfl)
    · rw [List.length_cons, List.length_take]
      exact .inr (.inl (by omega))

theorem not_mem_nullstr : ':' ∉ nullstr := by decide

theorem Given.ne_append {P Y : Text} (hY : Given P Y) (M : Text) : Y ≠ M ++ ':' :: P := by
  intro hmoved
  rcases hY.length_le with hnull | hshort | hsep
  · exact not_mem_nullstr (hnull ▸ hmoved ▸ List.mem_append_right M List.mem_cons_self)
  · rw [hmoved, List.length_append, List.length_cons] at hshort
    omega
  · rw [hsep] at hmoved
    have hlength := congrArg List.length hmoved
    simp only [List.length_append, List.length_cons] at hlength
    obtain rfl : M = [] := List.length_eq_zero_iff.mp (by omega)
    exact absurd (List.cons.inj hmoved).1 (by decide)

theorem Given.ne_append_cons {U X : Text} (hX : Given U X) (M : Text) : X ≠ U ++ ':' :: M := by
  rintro rfl
  rcases hX.length_le with hnull | hshort | hsep
  · exact not_mem_nullstr (hnull ▸ List.mem_append_right U List.mem_cons_self)
  · simp only [List.length_append, List.length_cons] at hshort
    omega
  · have hcount := congrArg (List.count '=') hsep
    have hlength := congrArg List.length hsep
    simp only [List.length_append, List.length_cons] at hlength
    obtain rfl : M = [] := List.length_eq_zero_iff.mp (by omega)
    rw [List.count_append, List.count_cons_self] at hcount
    have hcolon : List.count '=' [':'] = 0 := rfl
    omega

/-- **Values of two lines come out right together or not at all**: the colon between them does not move. -/
theorem Given.append_eq_iff {U P X Y : Text} (hX : Given U X) (hY : Given P Y) :
    X ++ ':' :: Y = U ++ ':' :: P ↔ X = U ∧ Y = P := by
  constructor
  · intro h
    rcases List.append_eq_append_iff.mp h with ⟨M, rfl, hM⟩ | ⟨M, rfl, hM⟩
    · cases M with
      | nil =>
        rw [List.append_nil]
        exact ⟨rfl, (List.cons.inj hM).2⟩
      | cons c M => exact absurd (List.cons.inj hM).2 (hY.ne_append M)
    · cases M with
      | nil =>
        rw [List.append_nil]
        exact ⟨rfl, (List.cons.inj hM).2.symm⟩
      | cons c M =>
        obtain ⟨rfl, -⟩ := List.cons.inj hM
        exact absurd rfl (hX.ne_append_cons M)
  · rintro ⟨rfl, rfl⟩
    rfl

theorem not_mem_gap {gap : Text} (hgap : ∀ c ∈ gap, c = ' ' ∨ c = '\t') {letter : Char}
    (hletter : letter ≠ ' ' ∧ letter ≠ '\t') :
    letter ∉ gap := fun hmem => (hgap letter hmem).elim hletter.1 hletter.2

theorem mem_value_of_mem_text {letter : Char} (hletter : letter ≠ ' ' ∧ letter ≠ '\t') (hsep : letter ≠ '=')
    (h : letter ∈ e.text) : letter ∈ e.value := by
  rcases List.mem_append.mp h with hgap₁ | h
  · exact absurd hgap₁ (not_mem_gap e.blank₁ hletter)
  · rcases List.mem_append.mp (List.mem_of_ne_of_mem hsep h) with hgap₂ | hvalue
    · exact absurd hgap₂ (not_mem_gap e.blank₂ hletter)
    · exact hvalue

theorem Intact.short_or_not_mem (h : e.Intact field) (letter : Char) (hnull : letter ∉ nullstr) (hsep : letter ≠ '=') :
    (e.line field).length ≤ 1023 ∨ letter ∉ e.value := by
  unfold Intact at h
  split at h
  · rcases h with hshort | ⟨hvalue, -⟩
    · exact .inl hshort
    · exact .inr (hvalue ▸ hnull)
  · rcases h with ⟨hvalue, -⟩ | ⟨hvalue, -⟩
    · exact .inr (hvalue ▸ hnull)
    · rw [hvalue]
      exact .inr fun hmem => hsep (List.eq_of_mem_replicate hmem)

theorem Intact.drop {nl : Text} (h : e.Intact field) (hfield : field.length ≤ 1023) (hnl : nl = [] ∨ nl = ['\n']) :
    'c' ∉ (e.line field ++ nl).drop 1023 := by
  have hnl' : 'c' ∉ nl := by
    rcases hnl with rfl | rfl <;> decide
  intro hmem
  rcases h.short_or_not_mem 'c' (by decide) (by decide) with hshort | hvalue
  · rw [List.drop_append, List.drop_eq_nil_of_le hshort, List.nil_append] at hmem
    exact hnl' (List.mem_of_mem_drop hmem)
  · rw [line, List.append_assoc, List.drop_append, List.drop_eq_nil_of_le hfield, List.nil_append] at hmem
    rcases List.mem_append.mp (List.mem_of_mem_drop hmem) with htext | hend
    · exact hvalue (mem_value_of_mem_text (by decide) (by decide) htext)
    · exact hnl' hend

theorem count_line (hfield : field.count 'c' = 1) : (e.line field).count 'c' = 1 + e.value.count 'c' := by
  have hgap₁ : e.gap₁.count 'c' = 0 := List.count_eq_zero.mpr (not_mem_gap e.blank₁ (by decide))
  have hgap₂ : e.gap₂.count 'c' = 0 := List.count_eq_zero.mpr (not_mem_gap e.blank₂ (by decide))
  rw [line, text, List.count_append, List.count_append, List.count_cons_of_ne (by decide), List.count_append, hfield,
    hgap₁, hgap₂, Nat.zero_add, Nat.zero_add]

end Entry

/-! ## A file with both lines -/

/-- The lines of the file are that of the user, that of the password, in any order, and others without the words. -/
def IsConf (user password : Entry) (file : Text) : Prop :=
  ∃ others : List Text,
    (file.splitOn '\n').Perm (user.line rpcuser :: password.line rpcpassword :: others) ∧
      ∀ l ∈ others, ¬ rpcuser <:+: l ∧ ¬ rpcpassword <:+: l

theorem infix_of_infix_append {word line nl : Text} (hword : '\n' ∉ word) (hnl : nl = [] ∨ nl = ['\n'])
    (h : word <:+: line ++ nl) : word <:+: line := by
  rcases hnl with rfl | rfl
  · rwa [List.append_nil] at h
  · rcases List.infix_concat_iff.mp h with h | h
    · rcases List.suffix_concat_iff.mp h with rfl | ⟨before, rfl, -⟩
      · exact List.nil_infix
      · exact absurd (List.mem_append_right before List.mem_cons_self) hword
    · exact h

theorem Chunks.filter_eq_nil {cs : List Text} {line : Text} (h : Chunks cs line)
    (hno : ¬ rpcuser <:+: line ∧ ¬ rpcpassword <:+: line) : cs.filter worded = [] := by
  obtain ⟨nl, hnl, hflat, -⟩ := h
  rw [List.filter_eq_nil_iff]
  intro c hc hworded
  have hinfix : c <:+: line ++ nl := hflat ▸ List.infix_of_mem_flatten hc
  rcases (worded_iff c).mp hworded with hword | hword
  · exact hno.1 (infix_of_infix_append (by decide) hnl (hword.trans hinfix))
  · exact hno.2 (infix_of_infix_append (by decide) hnl (hword.trans hinfix))

theorem filter_flatten_eq_nil {others : List Text} {css : List (List Text)}
    (h : List.Forall₂ (fun line cs => Chunks cs line) others css)
    (hno : ∀ l ∈ others, ¬ rpcuser <:+: l ∧ ¬ rpcpassword <:+: l) : css.flatten.filter worded = [] := by
  induction h with
  | nil => rfl
  | cons hcs _ ih =>
    obtain ⟨hline, hno⟩ := List.forall_mem_cons.mp hno
    rw [List.flatten_cons, List.filter_append, hcs.filter_eq_nil hline, ih hno, List.append_nil]

/-- The first piece of a line and the others. -/
structure Pieces (line first : Text) (rest : List Text) : Prop where
  split : ∃ nl, (nl = [] ∨ nl = ['\n']) ∧ first = (line ++ nl).take 1023 ∧ rest.flatten = (line ++ nl).drop 1023

theorem Chunks.pieces {cs : List Text} {line : Text} (h : Chunks cs line) (hline : line ≠ []) :
    ∃ first rest, cs = first :: rest ∧ Pieces line first rest := by
  obtain ⟨nl, hnl, hflat, hhead⟩ := h
  obtain ⟨rest, rfl⟩ := hhead hline
  refine ⟨_, rest, rfl, nl, hnl, rfl, ?_⟩
  rw [List.flatten_cons] at hflat
  conv_rhs at hflat => rw [← List.take_append_drop 1023 (line ++ nl)]
  exact List.append_cancel_left hflat

/-- The pieces with a word: the first ones of the two lines, and what of their other pieces has one. -/
theorem readLoop_conf {user password : Entry} {file : Text} (h : IsConf user password file) :
    ∃ c cs d ds, Pieces (user.line rpcuser) c cs ∧ Pieces (password.line rpcpassword) d ds ∧
      ((readLoop file.length file).filter worded).Perm ((c :: cs).filter worded ++ (d :: ds).filter worded) := by
  obtain ⟨others, hperm, hothers⟩ := h
  obtain ⟨css, hread, hall⟩ := readLoop_splitOn file le_rfl
  obtain ⟨sorted, hsorted, hcss⟩ := List.perm_comp_forall₂ hperm.symm (List.Forall₂.flip hall)
  obtain ⟨us, behind, hu, hbehind, rfl⟩ := List.forall₂_cons_left_iff.mp hsorted
  obtain ⟨ps, dss, hp, hdss, rfl⟩ := List.forall₂_cons_left_iff.mp hbehind
  obtain ⟨c, cs, rfl, hc⟩ := Chunks.pieces hu (List.cons_ne_nil _ _)
  obtain ⟨d, ds, rfl, hd⟩ := Chunks.pieces hp (List.cons_ne_nil _ _)
  refine ⟨c, cs, d, ds, hc, hd, ?_⟩
  have hnone := filter_flatten_eq_nil hdss hothers
  have hflat := (hcss.symm.flatten).filter worded
  rw [List.flatten_cons, List.flatten_cons, List.filter_append, List.filter_append, hnone, List.append_nil] at hflat
  rw [hread]
  exact hflat

section
variable {e : Entry} {field c : Text} {cs : List Text}

theorem Pieces.exists_append (h : Pieces (e.line field) c cs) (hfield : field.length < 1023) :
    ∃ rest, c = field ++ rest := by
  obtain ⟨nl, -, rfl, -⟩ := h.split
  refine ⟨(e.text ++ nl).take (1023 - field.length), ?_⟩
  rw [Entry.line, List.append_assoc, List.take_append, List.take_of_length_le hfield.le]

theorem Pieces.infix_first (h : Pieces (e.line field) c cs) (hfield : field.length < 1023) : field <:+: c := by
  obtain ⟨rest, rfl⟩ := h.exists_append hfield
  exact (List.prefix_append field rest).isInfix

theorem Pieces.parseConfLine_first (h : Pieces (e.line field) c cs) (hfield : field.length < 1023) :
    parseConfLine c field = some (e.firstValue field) := by
  obtain ⟨nl, hnl, rfl, -⟩ := h.split
  exact Entry.parseConfLine_line hfield hnl

theorem Pieces.count_flatten (h : Pieces (e.line field) c cs) :
    (c :: cs).flatten.count 'c' = (e.line field).count 'c' := by
  obtain ⟨nl, hnl, rfl, hrest⟩ := h.split
  have hnl' : nl.count 'c' = 0 := by
    rcases hnl with rfl | rfl <;> rfl
  rw [List.flatten_cons, hrest, List.take_append_drop, List.count_append, hnl', Nat.add_zero]

theorem Pieces.filter_eq_nil (h : Pieces (e.line field) c cs) (hintact : e.Intact field)
    (hfield : field.length ≤ 1023) :
    cs.filter worded = [] := by
  obtain ⟨nl, hnl, -, hrest⟩ := h.split
  rw [List.filter_eq_nil_iff]
  intro piece hpiece hworded
  have hinfix : piece <:+: (e.line field ++ nl).drop 1023 := hrest ▸ List.infix_of_mem_flatten hpiece
  apply hintact.drop hfield hnl
  rcases (worded_iff piece).mp hworded with hword | hword
  · exact (hword.trans hinfix).subset (by decide)
  · exact (hword.trans hinfix).subset (by decide)

/-- The first piece holds the other word if and only if its line does. -/
theorem Pieces.infix_iff (h : Pieces (e.line rpcpassword) c cs) (hintact : e.Intact rpcpassword) :
    rpcuser <:+: c ↔ rpcuser <:+: e.line rpcpassword := by
  obtain ⟨nl, hnl, rfl, -⟩ := h.split
  constructor
  · exact fun hword => infix_of_infix_append (by decide) hnl (hword.trans (List.take_prefix _ _).isInfix)
  · intro hword
    by_cases hshort : (e.line rpcpassword).length ≤ 1023
    · have hprefix : e.line rpcpassword <+: (e.line rpcpassword ++ nl).take 1023 := by
        rw [List.take_append, List.take_of_length_le hshort]
        exact List.prefix_append _ _
      exact hword.trans hprefix.isInfix
    · exfalso
      have hvalue := (hintact.short_or_not_mem 'e' (by decide) (by decide)).resolve_left hshort
      rcases List.mem_append.mp (hword.subset (by decide : 'e' ∈ rpcuser)) with hfield | htext
      · revert hfield
        decide
      · exact hvalue (Entry.mem_value_of_mem_text (by decide) (by decide) htext)

end

theorem count_flatten_filter_le (cs : List Text) : (cs.filter worded).flatten.count 'c' ≤ cs.flatten.count 'c' := by
  induction cs with
  | nil => exact le_rfl
  | cons c cs ih =>
    rw [List.filter_cons, List.flatten_cons, List.count_append]
    split
    · rw [List.flatten_cons, List.count_append]
      omega
    · omega

section
variable {user password : Entry} {c d : Text} {cs ds W : List Text}

/-- **Of the pieces with a word only the first ones are left**, if no letter is lost. -/
theorem filter_eq_nil_of_count (hc : Pieces (user.line rpcuser) c cs) (hd : Pieces (password.line rpcpassword) d ds)
    (hperm : W.Perm ((c :: cs).filter worded ++ (d :: ds).filter worded)) (hworded : ∀ piece ∈ W, worded piece)
    (hcount : user.value.count 'c' + password.value.count 'c' ≤
      countC (W.foldl confStep (none, none)).1 + countC (W.foldl confStep (none, none)).2) :
    cs.filter worded = [] ∧ ds.filter worded = [] := by
  have hcworded : worded c := (worded_iff c).mpr (.inl (hc.infix_first (by decide)))
  have hdworded : worded d := (worded_iff d).mpr (.inr (hd.infix_first (by decide)))
  have hletters : countC (W.foldl confStep (none, none)).1 + countC (W.foldl confStep (none, none)).2 + W.length ≤
      0 + 0 + W.flatten.count 'c' := countC_foldl hworded (none, none)
  have hlength := hperm.length_eq
  have hflat := hperm.flatten.count_eq 'c'
  have hcle := count_flatten_filter_le (c :: cs)
  have hdle := count_flatten_filter_le (d :: ds)
  rw [hc.count_flatten, Entry.count_line rfl] at hcle
  rw [hd.count_flatten, Entry.count_line rfl] at hdle
  rw [List.flatten_append, List.count_append] at hflat
  rw [List.filter_cons_of_pos hcworded, List.filter_cons_of_pos hdworded, List.length_append, List.length_cons,
    List.length_cons] at hlength
  constructor
  · exact List.length_eq_zero_iff.mp (by omega)
  · exact List.length_eq_zero_iff.mp (by omega)

theorem confStep_rpcuser {line : Text} (h : rpcuser <:+: line) (s : Option Text × Option Text) :
    (confStep s line).2 = s.2 := by
  obtain ⟨str, hstr⟩ := Option.isSome_iff_exists.mp ((strstr_isSome line rpcuser).mpr h)
  rw [confStep, hstr]

/-- What the two first pieces give, in any order. -/
theorem foldl_pair (hc : Pieces (user.line rpcuser) c cs) (hd : Pieces (password.line rpcpassword) d ds)
    (hword : ¬ rpcuser <:+: d) (hperm : W.Perm [c, d]) :
    W.foldl confStep (none, none) = (some (user.firstValue rpcuser), some (password.firstValue rpcpassword)) := by
  have huser := hc.parseConfLine_first (by decide)
  have hpassword := hd.parseConfLine_first (by decide)
  have hcstep (s : Option Text × Option Text) : confStep s c = (some (user.firstValue rpcuser), s.2) := by
    obtain ⟨rest, rfl⟩ := hc.exists_append (by decide)
    rw [confStep, strstr_append, ← huser]
  have hdstep (s : Option Text × Option Text) : confStep s d = (s.1, some (password.firstValue rpcpassword)) := by
    obtain ⟨rest, rfl⟩ := hd.exists_append (by decide)
    rw [confStep, (strstr_eq_none _ _).mpr hword, strstr_append, ← hpassword]
  rcases List.perm_pair.mp hperm with rfl | rfl
  · rw [List.foldl_cons, List.foldl_cons, List.foldl_nil, hcstep, hdstep]
  · rw [List.foldl_cons, List.foldl_cons, List.foldl_nil, hdstep, hcstep]

theorem foldl_pair_of_infix (hc : Pieces (user.line rpcuser) c cs) (hword : rpcuser <:+: d) (hperm : W.Perm [c, d]) :
    (W.foldl confStep (none, none)).2 = none := by
  have hcword := hc.infix_first (by decide)
  rcases List.perm_pair.mp hperm with rfl | rfl
  · rw [List.foldl_cons, List.foldl_cons, List.foldl_nil, confStep_rpcuser hword, confStep_rpcuser hcword]
  · rw [List.foldl_cons, List.foldl_cons, List.foldl_nil, confStep_rpcuser hcword, confStep_rpcuser hword]

end

/-! ## Which files give the user and the password -/

/-- A text that is written is that of the user and the password that were read. -/
theorem extractUserpass_eq_some_iff {size : Nat} {file text : Text} (htext : text ≠ []) :
    extractUserpass size file = some text ↔
      ∃ X Y, (readLoop file.length file).foldl confStep (none, none) = (some X, some Y) ∧ X ++ ':' :: Y = text ∧
        text.length < size := by
  unfold extractUserpass
  split
  · next X Y heq =>
    constructor
    · intro h
      split at h
      · next hsize =>
        obtain rfl := Option.some.inj h
        exact ⟨X, Y, heq, rfl, hsize⟩
      · cases h
    · rintro ⟨X', Y', hfold, rfl, hsize⟩
      obtain ⟨hX, hY⟩ := Prod.mk.inj (heq.symm.trans hfold)
      obtain rfl := Option.some.inj hX
      obtain rfl := Option.some.inj hY
      exact if_pos hsize
  · next hnone =>
    constructor
    · exact fun h => absurd (Option.some.inj h).symm htext
    · rintro ⟨X, Y, hfold, -⟩
      exact absurd hfold (hnone X Y)

/-- **Which files give the user and the password**: both values are read whole, the line of the password does not hold
the other word, and the text fits. -/
theorem extractUserpass_eq_iff {user password : Entry} {file : Text} (h : IsConf user password file) (size : Nat) :
    extractUserpass size file = some (user.value ++ ':' :: password.value) ↔
      user.Intact rpcuser ∧ password.Intact rpcpassword ∧ ¬ rpcuser <:+: password.line rpcpassword ∧
        (user.value ++ ':' :: password.value).length < size := by
  have hne : user.value ++ ':' :: password.value ≠ [] := List.append_ne_nil_of_left_ne_nil user.value_ne _
  obtain ⟨c, cs, d, ds, hc, hd, hperm⟩ := readLoop_conf h
  have hcworded : worded c := (worded_iff c).mpr (.inl (hc.infix_first (by decide)))
  have hdworded : worded d := (worded_iff d).mpr (.inr (hd.infix_first (by decide)))
  have hpair (hcs : cs.filter worded = []) (hds : ds.filter worded = []) :
      ((readLoop file.length file).filter worded).Perm [c, d] := by
    rw [List.filter_cons_of_pos hcworded, List.filter_cons_of_pos hdworded, hcs, hds] at hperm
    exact hperm
  rw [extractUserpass_eq_some_iff hne, foldl_confStep]
  constructor
  · rintro ⟨X, Y, hfold, htext, hsize⟩
    have hletters := congrArg (List.count 'c') htext
    rw [List.count_append, List.count_append, List.count_cons_of_ne (by decide),
      List.count_cons_of_ne (by decide)] at hletters
    obtain ⟨hcs, hds⟩ := filter_eq_nil_of_count hc hd hperm (fun _ hp => (List.mem_filter.mp hp).2) (by
      rw [hfold]
      exact hletters.ge)
    by_cases hword : rpcuser <:+: d
    · have hnone := foldl_pair_of_infix hc hword (hpair hcs hds)
      rw [hfold] at hnone
      cases hnone
    · have hvalues := foldl_pair hc hd hword (hpair hcs hds)
      obtain ⟨hX, hY⟩ := Prod.mk.inj (hfold.symm.trans hvalues)
      obtain rfl := Option.some.inj hX
      obtain rfl := Option.some.inj hY
      obtain ⟨huser, hpassword⟩ := (Entry.Given.append_eq_iff (Entry.given_firstValue user rpcuser)
        (Entry.given_firstValue password rpcpassword)).mp htext
      have hintact := (Entry.firstValue_eq_iff (by decide)).mp hpassword
      exact ⟨(Entry.firstValue_eq_iff (by decide)).mp huser, hintact,
        fun hline => hword ((hd.infix_iff hintact).mpr hline), hsize⟩
  · rintro ⟨huser, hpassword, hword, hsize⟩
    have hcs := hc.filter_eq_nil huser (by decide)
    have hds := hd.filter_eq_nil hpassword (by decide)
    have hvalues := foldl_pair hc hd (fun hpiece => hword ((hd.infix_iff hpassword).mp hpiece)) (hpair hcs hds)
    rw [(Entry.firstValue_eq_iff (by decide)).mpr huser, (Entry.firstValue_eq_iff (by decide)).mpr hpassword] at hvalues
    exact ⟨_, _, hvalues, rfl, hsize⟩

/-- The value `bob`, with blanks around its separator. -/
def bob (blanks : Nat) : Entry where
  gap₁ := List.replicate blanks ' '
  gap₂ := List.replicate blanks ' '
  value := "bob".toList
  blank₁ := fun _ h => .inl (List.eq_of_mem_replicate h)
  blank₂ := fun _ h => .inl (List.eq_of_mem_replicate h)
  value_ne := by decide
  plain := by
    show ∀ c ∈ ['b', 'o', 'b'], _
    simp only [List.forall_mem_cons]
    exact ⟨by decide, by decide, by decide, List.forall_mem_nil _⟩

theorem extractUserpass_eq_iff_at_bob :
    IsConf (bob 0) (bob 0) "rpcuser=bob\nrpcpassword=bob\n".toList ∧
      (extractUserpass 512 "rpcuser=bob\nrpcpassword=bob\n".toList = some "bob:bob".toList ↔
        (bob 0).Intact rpcuser ∧ (bob 0).Intact rpcpassword ∧ ¬ rpcuser <:+: (bob 0).line rpcpassword ∧
          "bob:bob".toList.length < 512) := by
  have hconf : IsConf (bob 0) (bob 0) "rpcuser=bob\nrpcpassword=bob\n".toList := ⟨[[]], .refl _, by decide⟩
  exact ⟨hconf, extractUserpass_eq_iff hconf 512⟩

/-- With a blank around the separators, they are read as part of the values. -/
theorem not_forall_extractUserpass_eq :
    ¬ ∀ (user password : Entry) (file : Text), IsConf user password file →
      extractUserpass 512 file = some (user.value ++ ':' :: password.value) := by
  intro h
  have hconf : IsConf (bob 1) (bob 1) "rpcuser = bob\nrpcpassword = bob\n".toList := ⟨[[]], .refl _, by decide⟩
  have hread : extractUserpass 512 "rpcuser = bob\nrpcpassword = bob\n".toList = some "=bob:=bob".toList := by decide
  have hself := h _ _ _ hconf
  rw [hread] at hself
  exact absurd hself (by decide)

end NXTServices.Gateway
