import NXTServices.Printing

/-!
# Web requests with a token

* `Command`, `jsonCommands` : the table of commands that each `_json_commands` function searches;
* `jsonhandler` : a request `[parms, token]`, whose token is checked for the printed parms;
* `readFields`, `jsonCommands_congr` : the fields that decide what is run;
* `fields_fixed_iff` : when the signed text determines them.

`decodeToken` stands for `issue_decodeToken`: the sender and `valid` for a text and a token.
-/

namespace NXTServices.Json

/-! ## Commands -/

/-- An entry `{ func, name, "V" or "", fields... }`. -/
structure Command where
  func : Text
  name : Text
  needvalid : Bool
  fields : List Text

/-- A call of a `_func`; `objs` are copied by `copy_cJSON`. -/
structure FuncCall where
  func : Text
  sender : Text
  valid : Int
  objs : List Text
deriving DecidableEq

def fieldText (argjson : Json) (field : Text) : Text := copyCJSON (getObjectItem argjson field)

def jsonCommands (commands : List Command) (argjson : Json) (sender : Text) (valid : Int) : Option FuncCall :=
  let nxtAddr := fieldText argjson "NXT".toList
  let command := fieldText argjson "requestType".toList
  match commands.find? fun c => c.name == command with
  | none => none
  | some c =>
    if c.needvalid ∧ (sender = [] ∨ valid ≠ 1 ∨ nxtAddr ≠ sender) then none
    else some { func := c.func, sender := sender, valid := valid, objs := c.fields.map (fieldText argjson) }

/-- The text that a token is for. -/
def signedText (parms : Json) : Text := stripwhite (cJSONPrint parms)

def jsonhandler (commands : List Command) (decodeToken : Text → Text → Text × Int) (argjson : Json) : Option FuncCall :=
  match argjson with
  | array [parmsobj, secondobj] =>
    let encoded := fieldText secondobj "token".toList
    let (sender, valid) := if encoded.length = 160 then decodeToken (signedText parmsobj) encoded else ([], -1)
    jsonCommands commands parmsobj sender valid
  | argjson => jsonCommands commands argjson [] (-1)

/-- All fields that some command reads. -/
def readFields (commands : List Command) : List Text :=
  "requestType".toList :: "NXT".toList :: commands.flatMap Command.fields

/-- The fields decide what is run. -/
theorem jsonCommands_congr {commands : List Command} {parms parms' : Json}
    (h : ∀ f ∈ readFields commands, fieldText parms' f = fieldText parms f) (sender : Text) (valid : Int) :
    jsonCommands commands parms' sender valid = jsonCommands commands parms sender valid := by
  have hnxt := h "NXT".toList (List.mem_cons_of_mem _ List.mem_cons_self)
  have hcommand := h "requestType".toList List.mem_cons_self
  have hobjs : ∀ c ∈ commands, c.fields.map (fieldText parms') = c.fields.map (fieldText parms) := by
    intro c hc
    apply List.map_congr_left
    intro f hf
    exact h f (List.mem_cons_of_mem _ (List.mem_cons_of_mem _ (List.mem_flatMap.mpr ⟨c, hc, hf⟩)))
  unfold jsonCommands
  simp only [hnxt, hcommand]
  cases hfind : commands.find? fun c => c.name == fieldText parms "requestType".toList with
  | none => rfl
  | some c => simp only [hobjs c (List.mem_of_find?_eq_some hfind)]

theorem jsonhandler_congr {commands : List Command} {parms parms' : Json} (decodeToken : Text → Text → Text × Int)
    (token : Json) (htext : signedText parms' = signedText parms)
    (h : ∀ f ∈ readFields commands, fieldText parms' f = fieldText parms f) :
    jsonhandler commands decodeToken (array [parms', token]) =
    jsonhandler commands decodeToken (array [parms, token]) := by
  show jsonCommands commands parms' _ _ = jsonCommands commands parms _ _
  rw [htext]
  exact jsonCommands_congr h _ _

/-! ## What a signed text leaves open -/

/-- The name is that of the field but for spaces and the case of letters. -/
def Near (f name : Text) : Prop := (unspace name).map tolower = f.map tolower

instance (f name : Text) : Decidable (Near f name) := inferInstanceAs (Decidable (_ = _))

section
variable {f name : Text} {ms : List (Text × Json)}

theorem tolower_eq_space {c : Char} (h : tolower c = ' ') : c = ' ' := by
  unfold tolower at h
  split at h
  · next hupper =>
    have hletter : ∀ n < 26, Char.ofNat (n + 65 + 32) ≠ ' ' := by decide
    have hlow : 65 ≤ c.toNat := hupper.1
    have hhigh : c.toNat ≤ 90 := hupper.2
    have := hletter (c.toNat - 65) (by omega)
    rw [show c.toNat - 65 + 65 = c.toNat by omega] at this
    exact absurd h this
  · exact h

theorem not_mem_space_of_eq (hf : ' ' ∉ f) (h : name.map tolower = f.map tolower) : ' ' ∉ name := by
  intro hspace
  have hmem : ' ' ∈ f.map tolower := h ▸ List.mem_map.mpr ⟨' ', hspace, rfl⟩
  obtain ⟨c, hc, hlower⟩ := List.mem_map.mp hmem
  exact hf (tolower_eq_space hlower ▸ hc)

theorem near_of_eq (hf : ' ' ∉ f) (h : name.map tolower = f.map tolower) : Near f name := by
  have hspace := not_mem_space_of_eq hf h
  have hself : unspace name = name := by
    apply List.filter_eq_self.mpr
    intro c hc
    have hne : c ≠ ' ' := by rintro rfl; exact hspace hc
    simpa using hne
  unfold Near
  rw [hself, h]

theorem fieldText_eq_nil_of_not_near (hf : ' ' ∉ f) (h : ∀ m ∈ ms, ¬ Near f m.1) : fieldText (object ms) f = [] := by
  have hfind : (ms.find? fun m => m.1.map tolower == f.map tolower) = none := by
    apply List.find?_eq_none.mpr
    intro m hm hname
    exact h m hm (near_of_eq hf (by simpa using hname))
  simp [fieldText, getObjectItem, hfind, copyCJSON]

/-! ### Two changes that the text does not show -/

/-- The field is hidden behind a space in its name. -/
def hide (f : Text) (m : Text × Json) : Text × Json := if Near f m.1 then (' ' :: m.1, m.2) else m

def fatten : Json → Json
  | string str => string (' ' :: str)
  | item => item

/-- The name is cleared of spaces, and a string gets one more. -/
def bare (f : Text) (m : Text × Json) : Text × Json := if Near f m.1 then (unspace m.1, fatten m.2) else m

theorem unspace_unspace (str : Text) : unspace (unspace str) = unspace str := by
  simp [unspace, List.filter_filter]

theorem flat_fatten (item : Json) : flat (fatten item) = flat item := by
  cases item <;> rfl

theorem plain_fatten {item : Json} (h : Plain item) : Plain (fatten item) := by
  cases item <;> exact h

theorem flatObject_map {k : Text × Json → Text × Json} (hname : ∀ m, unspace (k m).1 = unspace m.1)
    (hvalue : ∀ m, flat (k m).2 = flat m.2) (ms : List (Text × Json)) : flatObject (ms.map k) = flatObject ms := by
  induction ms with
  | nil => rfl
  | cons m ms ih =>
    cases ms with
    | nil =>
      show printString (unspace (k m).1) ++ ':' :: flat (k m).2 = _
      rw [hname, hvalue]
      rfl
    | cons m' ms =>
      show printString (unspace (k m).1) ++ ':' :: flat (k m).2 ++ ',' :: flatObject ((m' :: ms).map k) = _
      rw [hname, hvalue, ih]
      rfl

theorem plainObject_map {k : Text × Json → Text × Json} (hvalue : ∀ m, Plain m.2 → Plain (k m).2)
    (h : PlainObject ms) : PlainObject (ms.map k) := by
  induction ms with
  | nil => trivial
  | cons m ms ih => exact ⟨hvalue m h.1, ih h.2⟩

theorem signedText_map {k : Text × Json → Text × Json} (hname : ∀ m, unspace (k m).1 = unspace m.1)
    (hvalue : ∀ m, flat (k m).2 = flat m.2) (ms : List (Text × Json)) :
    signedText (object (ms.map k)) = signedText (object ms) := by
  unfold signedText
  rw [stripwhite_cJSONPrint, stripwhite_cJSONPrint]
  show '\x7b' :: flatObject (ms.map k) ++ ['\x7d'] = _
  rw [flatObject_map hname hvalue]
  rfl

theorem fieldText_hide (hf : ' ' ∉ f) (ms : List (Text × Json)) : fieldText (object (ms.map (hide f))) f = [] := by
  have hfind : ((ms.map (hide f)).find? fun m => m.1.map tolower == f.map tolower) = none := by
    apply List.find?_eq_none.mpr
    intro m' hm' hname
    obtain ⟨m, -, rfl⟩ := List.mem_map.mp hm'
    have hname : (hide f m).1.map tolower = f.map tolower := by simpa using hname
    unfold hide at hname
    split at hname
    · exact not_mem_space_of_eq hf hname List.mem_cons_self
    · next hnear => exact hnear (near_of_eq hf hname)
  simp [fieldText, getObjectItem, hfind, copyCJSON]

theorem plain_of_mem {m : Text × Json} (h : PlainObject ms) (hm : m ∈ ms) : Plain m.2 := by
  induction ms with
  | nil => cases hm
  | cons m' ms ih =>
    rcases List.mem_cons.mp hm with rfl | hm
    · exact h.1
    · exact ih h.2 hm

theorem fieldText_bare (hf : ' ' ∉ f) (hplain : PlainObject ms) (hnear : ∃ m ∈ ms, Near f m.1) :
    fieldText (object (ms.map (bare f))) f ≠ [] := by
  have hpred : (fun m : Text × Json => m.1.map tolower == f.map tolower) ∘ bare f = fun m => decide (Near f m.1) := by
    funext m
    show ((bare f m).1.map tolower == f.map tolower) = _
    rw [Bool.eq_iff_iff, beq_iff_eq, decide_eq_true_iff]
    unfold bare
    split
    · next h => exact iff_of_true h h
    · next h => exact iff_of_false (fun hname => h (near_of_eq hf hname)) h
  obtain ⟨m, hm, hm'⟩ := hnear
  obtain ⟨first, hfirst⟩ := Option.isSome_iff_exists.mp
    (List.find?_isSome.mpr ⟨m, hm, decide_eq_true hm'⟩ : (ms.find? fun m => decide (Near f m.1)).isSome)
  have hfield : getObjectItem (object (ms.map (bare f))) f = some (fatten first.2) := by
    show ((ms.map (bare f)).find? _).map Prod.snd = _
    rw [List.find?_map, hpred, hfirst, Option.map_some, Option.map_some, bare,
      if_pos (by simpa using List.find?_some hfirst)]
  intro hempty
  rw [fieldText, hfield] at hempty
  have hstring := copyCJSON_eq_nil (plain_fatten (plain_of_mem hplain (List.mem_of_find?_eq_some hfirst))) hempty
  cases hvalue : first.2 <;> rw [hvalue] at hstring <;> cases hstring

theorem unspace_hide (f : Text) (m : Text × Json) : unspace (hide f m).1 = unspace m.1 ∧ (hide f m).2 = m.2 := by
  unfold hide
  split
  · exact ⟨by simp [unspace], rfl⟩
  · exact ⟨rfl, rfl⟩

theorem flat_bare (f : Text) (m : Text × Json) : unspace (bare f m).1 = unspace m.1 ∧
    flat (bare f m).2 = flat m.2 ∧ (Plain m.2 → Plain (bare f m).2) := by
  unfold bare
  split
  · exact ⟨unspace_unspace _, flat_fatten _, plain_fatten⟩
  · exact ⟨rfl, rfl, id⟩

/-- A field that is not near a name of the signed text has no text in what was signed. -/
theorem fieldText_of_signedText {parms : Json} (hparms : Plain parms) (hplain : PlainObject ms)
    (htext : signedText parms = signedText (object ms)) (hf : ' ' ∉ f) (hfar : ∀ m ∈ ms, ¬ Near f m.1) :
    fieldText parms f = [] := by
  unfold signedText at htext
  rw [stripwhite_cJSONPrint, stripwhite_cJSONPrint] at htext
  have htext : flat parms ++ [] = '\x7b' :: (flatObject ms ++ ['\x7d']) := by
    rw [List.append_nil]
    exact htext
  rcases flat_append_cons hparms htext with ⟨hc, -⟩ | ⟨hc, -⟩ | ⟨hc, -⟩ | ⟨-, ns, rfl⟩
  · exact absurd hc (by decide)
  · exact absurd hc (by decide)
  · exact absurd hc (by decide)
  · rw [List.append_nil] at htext
    obtain ⟨hnames, -⟩ := flatObject_append_inj ns ms hparms hplain (List.cons.inj htext).2
    apply fieldText_eq_nil_of_not_near hf
    intro n hn hnear
    have hmem : unspace n.1 ∈ ms.map fun m => unspace m.1 := hnames ▸ List.mem_map.mpr ⟨n, hn, rfl⟩
    obtain ⟨m, hm, hname⟩ := List.mem_map.mp hmem
    apply hfar m hm
    unfold Near
    rw [hname]
    exact hnear

/-- **The signed text determines the fields** of a request exactly when it has none of them, be it under a
name with spaces. -/
theorem fields_fixed_iff {commands : List Command} (hspace : ∀ f ∈ readFields commands, ' ' ∉ f)
    (hplain : PlainObject ms) :
    (∀ parms, Plain parms → signedText parms = signedText (object ms) →
        ∀ f ∈ readFields commands, fieldText parms f = fieldText (object ms) f) ↔
      ∀ m ∈ ms, ∀ f ∈ readFields commands, ¬ Near f m.1 := by
  constructor
  · intro h m hm f hf hnear
    have hone := h (object (ms.map (hide f)))
      (plainObject_map (fun m hm => by rw [(unspace_hide f m).2]; exact hm) hplain)
      (signedText_map (fun m => (unspace_hide f m).1) (fun m => by rw [(unspace_hide f m).2]) ms) f hf
    have htwo := h (object (ms.map (bare f))) (plainObject_map (fun m => (flat_bare f m).2.2) hplain)
      (signedText_map (fun m => (flat_bare f m).1) (fun m => (flat_bare f m).2.1) ms) f hf
    apply fieldText_bare (hspace f hf) hplain ⟨m, hm, hnear⟩
    rw [htwo, ← hone]
    exact fieldText_hide (hspace f hf) ms
  · intro h parms hparms htext f hf
    have hfar : ∀ m ∈ ms, ¬ Near f m.1 := fun m hm => h m hm f hf
    rw [fieldText_of_signedText hparms hplain htext (hspace f hf) hfar,
      fieldText_eq_nil_of_not_near (hspace f hf) hfar]

end

end NXTServices.Json
