import NXTServices.Transaction

/-!
# Compressed JSON: `utils/jsoncodec.h`

* `Zlib` : what is known of `compress2` and `uncompress`, which are not part of the program;
* `stripstr`, `encodeLoop`, `encodeJson`, `decodeJson` : the encoder and the decoder, with the words of the dictionary;
* `Derives`, `Valid` : the JSON texts;
* `compact` : a text without the white space outside its strings;
* `lossless_iff_of_text` : when a text comes back, for all texts;
* `lossless_iff` : a JSON text comes back when it has no strings and gets shorter.
-/

namespace NXTServices.Jsoncodec
open Protocol (textBytes)

/-! ## The encoder -/

/-- A text is the list of its bytes, without the null at its end. -/
abbrev Bytes := List (BitVec 8)

def byte (c : Char) : BitVec 8 := BitVec.ofNat 8 c.toNat

def quote : BitVec 8 := byte '"'

def bytes (s : String) : Bytes := textBytes s.toList

/-- White space. -/
def isBlank (b : BitVec 8) : Bool := b = byte ' ' ∨ b = byte '\n' ∨ b = byte '\r' ∨ b = byte '\t'

/-- The code of a word, or a byte of a character that is not ASCII. -/
def isCode (b : BitVec 8) : Bool := b &&& 0x80 ≠ 0

def stripstr (buf : Bytes) : Bytes := buf.filter fun b => !(isBlank b || b = quote)

/-- The compressor at level 9. What it makes of a text is complete in itself: what follows it is not looked at, and
without its last bytes it is not accepted. -/
structure Zlib where
  compress : Bytes → Bytes
  uncompress : Nat → Bytes → Option Bytes
  inverse : ∀ (src rest : Bytes) (n : Nat), src.length ≤ n → uncompress n (compress src ++ rest) = some src
  incomplete : ∀ (src : Bytes) (n k : Nat), k < (compress src).length → uncompress n ((compress src).take k) = none

/-- `n` bytes are there for the result. -/
def Zlib.compress2 (z : Zlib) (n : Nat) (src : Bytes) : Option Bytes :=
  if (z.compress src).length ≤ n then some (z.compress src) else none

def jsonWords : List String :=
  ["requestType", "alias", "uri", "transactionBytes", "order", "poll", "vote", "name", "description",
    "minNumberOfOptions", "maxNumberOfOptions", "optionsAreBinary", "option", "secretPhrase", "publicKey", "deadline",
    "referencedTransaction", "hallmark", "website", "token", "account", "timestamp", "asset", "subtype", "limit",
    "assetName", "block", "numberOfConfirmations", "peer", "firstIndex", "lastIndex", "transaction", "hash",
    "quantity", "host", "weight", "date", "price", "recipient", "message", "amount", "errorCode", "errorDescription",
    "error", "valid", "balance", "effectiveBalance", "unconfirmedBalance", "assetBalances",
    "unconfirmedAssetBalances", "blockIds", "askOrderIds", "bidOrderIds", "accountId", "transactionIds", "aliasIds",
    "trades", "height", "numberOfTrades", "assetIds", "assets", "generator", "numberOfTransactions", "totalAmount",
    "totalFee", "payloadLength", "version", "baseTarget", "previousBlock", "nextBlock", "payloadHash",
    "generationSignature", "previousBlockHash", "blockSignature", "transactions", "genesisBlockId",
    "genesisAccountId", "maxBlockPayloadLength", "transactionTypes", "peerStates", "guaranteedBalance", "address",
    "state", "announcedAddress", "shareAddress", "downloadedVolume", "uploadedVolume", "application", "platform",
    "blacklisted", "peers", "options", "voters", "pollIds", "time", "lastBlock", "cumulativeDifficulty",
    "totalEffectiveBalance", "numberOfBlocks", "numberOfAccounts", "numberOfAssets", "numberOfOrders",
    "numberOfAliases", "numberOfPolls", "numberOfVotes", "numberOfPeers", "numberOfUsers", "numberOfUnlockedAccounts",
    "lastBlockchainFeeder", "availableProcessors", "maxMemory", "totalMemory", "freeMemory", "confirmations",
    "blockTimestamp", "sender", "unconfirmedTransactionIds", "aliases", "foundAndStopped", "withdrawaddrs",
    "depositaddrs", "redeemScript", "assetxfers", "pubkey", "ipaddr", "coinid", "flag"]

/-- The first word that follows with its quote and colon: its number and its length. -/
def findWord (src : Bytes) : Option (Nat × Nat) :=
  (jsonWords.zipIdx.find? fun w => bytes w.1 ++ [quote, byte ':'] <+: src).map fun w => (w.2, w.1.length)

/-- The loop over `src`; the first `skip` bytes belong to a word already written. -/
def encodeLoop : Nat → Bytes → Bytes
  | _, [] => []
  | skip + 1, _ :: src => encodeLoop skip src
  | 0, c :: src =>
    if c = quote ∧ src.head? ≠ some quote then
      match findWord src with
      | some (j, len) => (0x80 ||| BitVec.ofNat 8 j) :: encodeLoop (len + 2) src
      | none => c :: encodeLoop 0 src
    else c :: encodeLoop 0 src

structure CompressedJson where
  complen : Nat
  sublen : Nat
  origlen : Nat
  encoded : Bytes
deriving DecidableEq

/-- There is no packet when the compressed text is longer than the text; the counters are of type `int32_t`, so a
longer text has no defined effect. -/
def encodeJson (z : Zlib) (jsontext : Bytes) : Option CompressedJson :=
  if jsontext.length < 2 ^ 31 then
    let substr := encodeLoop 0 (stripstr jsontext)
    (z.compress2 jsontext.length substr).map fun encoded =>
      { complen := encoded.length, sublen := substr.length, origlen := jsontext.length, encoded := encoded }
  else none

/-! ## The decoder -/

/-- The word behind a code; the number 127 has none. -/
def expand (b : BitVec 8) : Bytes :=
  if isCode b then quote :: bytes (jsonWords.getD (b &&& 0x7f).toNat "") ++ [quote, byte ':'] else [b]

/-- `uncompress` is given `sublen` bytes, those after the packet being what the heap holds. `none` is a null pointer,
or that the text does not fit. -/
def decodeJson (z : Zlib) (heap : Bytes) (jsn : CompressedJson) : Option Bytes :=
  match z.uncompress jsn.sublen ((jsn.encoded ++ heap).take jsn.sublen) with
  | none => none
  | some rawdecoded =>
    let decoded := ((rawdecoded ++ heap).take jsn.sublen).flatMap expand
    if decoded.length ≤ jsn.origlen then some decoded else none

/-! ## JSON texts -/

def IsDigits (s : Bytes) : Prop := s ≠ [] ∧ ∀ b ∈ s, b ∈ bytes "0123456789"

/-- A number with a sign, a fraction and an exponent, each of which may be missing. -/
structure IsNumber (s : Bytes) : Prop where
  parts : ∃ sign int frac exp : Bytes, s = sign ++ int ++ frac ++ exp ∧ (sign = [] ∨ sign = bytes "-") ∧
    IsDigits int ∧ (int.head? = some (byte '0') → int.length = 1) ∧
    (frac = [] ∨ ∃ digits, frac = byte '.' :: digits ∧ IsDigits digits) ∧
    (exp = [] ∨ ∃ e sign digits, exp = e :: sign ++ digits ∧ e ∈ bytes "eE" ∧
      (sign = [] ∨ sign = bytes "+" ∨ sign = bytes "-") ∧ IsDigits digits)

inductive StringBody : Bytes → Prop
  | nil : StringBody []
  | char {b s} : 0x20 ≤ b.toNat → b ≠ quote → b ≠ byte '\\' → StringBody s → StringBody (b :: s)
  | escape {b s} : b ∈ bytes "\"\\/bfnrt" → StringBody s → StringBody (byte '\\' :: b :: s)
  | unicode {hex s} : hex.length = 4 → (∀ b ∈ hex, b ∈ bytes "0123456789abcdefABCDEF") → StringBody s →
    StringBody (byte '\\' :: byte 'u' :: hex ++ s)

def IsString (s : Bytes) : Prop := ∃ body, StringBody body ∧ s = quote :: body ++ [quote]

def Blanks (s : Bytes) : Prop := ∀ b ∈ s, isBlank b = true

inductive Symbol where
  | value | element | elements | member | members

/-- The grammar. -/
inductive Derives : Symbol → Bytes → Prop
  | literal {s} : s = bytes "true" ∨ s = bytes "false" ∨ s = bytes "null" → Derives .value s
  | number {s} : IsNumber s → Derives .value s
  | string {s} : IsString s → Derives .value s
  | emptyArray {w} : Blanks w → Derives .value (byte '[' :: w ++ [byte ']'])
  | array {s} : Derives .elements s → Derives .value (byte '[' :: s ++ [byte ']'])
  | emptyObject {w} : Blanks w → Derives .value (byte '{' :: w ++ [byte '}'])
  | object {s} : Derives .members s → Derives .value (byte '{' :: s ++ [byte '}'])
  | element {w w' s} : Blanks w → Blanks w' → Derives .value s → Derives .element (w ++ s ++ w')
  | elements {s} : Derives .element s → Derives .elements s
  | moreElements {s s'} : Derives .element s → Derives .elements s' → Derives .elements (s ++ byte ',' :: s')
  | member {w w' name s} : Blanks w → Blanks w' → IsString name → Derives .element s →
    Derives .member (w ++ name ++ w' ++ byte ':' :: s)
  | members {s} : Derives .member s → Derives .members s
  | moreMembers {s s'} : Derives .member s → Derives .members s' → Derives .members (s ++ byte ',' :: s')

def Valid (t : Bytes) : Prop := Derives .element t

/-- Where a byte of a text stands. -/
inductive Place where
  | outside | inside | escaped

/-- A text without the white space outside its strings. -/
def compact : Place → Bytes → Bytes
  | _, [] => []
  | .outside, b :: t =>
    if isBlank b then compact .outside t else b :: compact (if b = quote then .inside else .outside) t
  | .inside, b :: t =>
    b :: compact (if b = quote then .outside else if b = byte '\\' then .escaped else .inside) t
  | .escaped, b :: t => b :: compact .inside t

/-- The packet of `t` is decoded to a text that is `t` up to white space outside strings. -/
def Lossless (z : Zlib) (heap : Bytes) (jsn : CompressedJson) (t : Bytes) : Prop :=
  ∃ decoded, decodeJson z heap jsn = some decoded ∧ compact .outside decoded = compact .outside t

section
variable {z : Zlib} {heap t src : Bytes} {jsn : CompressedJson} {b : BitVec 8}

/-! ## The encoder does not find a word -/

theorem mem_stripstr : b ∈ stripstr t ↔ b ∈ t ∧ isBlank b = false ∧ b ≠ quote := by
  unfold stripstr
  rw [List.mem_filter, Bool.not_eq_true', Bool.or_eq_false_iff, decide_eq_false_iff_not]

theorem encodeLoop_of_not_mem (h : quote ∉ src) : encodeLoop 0 src = src := by
  induction src with
  | nil => rfl
  | cons c src ih =>
    rw [List.mem_cons, not_or] at h
    rw [encodeLoop, if_neg fun hc => h.1 hc.1.symm, ih h.2]

/-- **No word is ever written**: the quotes are gone before they are looked for. -/
theorem encodeLoop_stripstr (t : Bytes) : encodeLoop 0 (stripstr t) = stripstr t :=
  encodeLoop_of_not_mem fun h => (mem_stripstr.mp h).2.2 rfl

theorem encodeJson_eq_some (h : encodeJson z t = some jsn) : (z.compress (stripstr t)).length ≤ t.length ∧
    jsn = { complen := (z.compress (stripstr t)).length, sublen := (stripstr t).length, origlen := t.length,
            encoded := z.compress (stripstr t) } := by
  unfold encodeJson Zlib.compress2 at h
  dsimp only at h
  rw [encodeLoop_stripstr] at h
  split at h
  case isFalse => cases h
  split at h
  case isFalse => cases h
  case isTrue hle => exact ⟨hle, (Option.some.inj h).symm⟩

/-! ## The decoder -/

theorem expand_of_not_isCode (h : isCode b = false) : expand b = [b] := by
  unfold expand
  rw [h]
  rfl

theorem flatMap_expand (h : ∀ b ∈ src, isCode b = false) : src.flatMap expand = src := by
  induction src with
  | nil => rfl
  | cons c src ih =>
    obtain ⟨hc, hsrc⟩ := List.forall_mem_cons.mp h
    rw [List.flatMap_cons, ih hsrc, expand_of_not_isCode hc]
    rfl

theorem isCode_byte {c : Char} (h : c.toNat < 128) : isCode (byte c) = false := by
  have hall : ∀ n < 128, isCode (BitVec.ofNat 8 n) = false := by decide +kernel
  exact hall c.toNat h

theorem ascii_jsonWords : ∀ w ∈ jsonWords, ∃ t : Text, w = String.ofList t ∧ t.all (fun c => c.toNat < 128) = true := by
  unfold jsonWords
  -- a word is compared with its list of characters, not decoded
  repeat refine List.forall_mem_cons.mpr ⟨⟨_, rfl, rfl⟩, ?_⟩
  exact List.forall_mem_nil _

theorem isCode_word (n : Nat) : ∀ b ∈ bytes (jsonWords.getD n ""), isCode b = false := by
  rw [List.getD_eq_getElem?_getD]
  intro b hb
  cases hw : jsonWords[n]? with
  | none =>
    rw [hw] at hb
    cases hb
  | some w =>
    obtain ⟨t, rfl, hascii⟩ := ascii_jsonWords w (List.mem_of_getElem? hw)
    rw [hw, Option.getD_some, bytes, String.toList_ofList] at hb
    obtain ⟨c, hc, rfl⟩ := List.mem_map.mp hb
    exact isCode_byte (of_decide_eq_true (List.all_eq_true.mp hascii c hc))

/-- What is decoded is ASCII. -/
theorem isCode_of_mem_expand {c : BitVec 8} (h : b ∈ expand c) : isCode b = false := by
  unfold expand at h
  split at h
  case isTrue =>
    rcases List.mem_append.mp h with h | h
    · rcases List.mem_cons.mp h with rfl | h
      · decide
      · exact isCode_word _ b h
    · rcases List.mem_cons.mp h with rfl | h
      · decide
      · obtain rfl := List.mem_singleton.mp h
        decide
  case isFalse hc =>
    obtain rfl := List.mem_singleton.mp h
    exact Bool.not_eq_true _ ▸ hc

theorem uncompress_stripstr (z : Zlib) (heap t : Bytes) :
    z.uncompress (stripstr t).length ((z.compress (stripstr t) ++ heap).take (stripstr t).length) =
      if (z.compress (stripstr t)).length ≤ (stripstr t).length then some (stripstr t) else none := by
  split
  case isTrue h =>
    rw [List.take_append, List.take_of_length_le h]
    exact z.inverse _ _ _ le_rfl
  case isFalse h =>
    rw [List.take_append_of_le_length (by omega)]
    exact z.incomplete _ _ _ (by omega)

/-- **What is decoded** is the text without white space and quotes, with a word for each byte that is not ASCII. -/
theorem decodeJson_of_encodeJson (h : encodeJson z t = some jsn) : decodeJson z heap jsn =
    if (z.compress (stripstr t)).length ≤ (stripstr t).length ∧ ((stripstr t).flatMap expand).length ≤ t.length then
      some ((stripstr t).flatMap expand)
    else none := by
  obtain ⟨-, rfl⟩ := encodeJson_eq_some h
  unfold decodeJson
  dsimp only
  rw [uncompress_stripstr]
  by_cases hle : (z.compress (stripstr t)).length ≤ (stripstr t).length
  · rw [if_pos hle]
    dsimp only
    rw [List.take_left]
    exact if_congr (and_iff_right hle).symm rfl rfl
  · rw [if_neg hle, if_neg fun hand => hle hand.1]

/-! ## Texts up to white space -/

theorem isCode_of_isBlank (h : isBlank b = true) : isCode b = false := by
  revert b
  decide

theorem isBlank_quote : isBlank quote = false := by decide

/-- Only white space is left out. -/
theorem mem_compact {place : Place} (hb : isBlank b = false) : b ∈ compact place t ↔ b ∈ t := by
  induction t generalizing place with
  | nil => cases place <;> rfl
  | cons c t ih =>
    cases place with
    | outside =>
      rw [compact, List.mem_cons]
      split
      case isTrue hc =>
        have hne : b ≠ c := by
          rintro rfl
          rw [hb] at hc
          cases hc
        rw [ih, or_iff_right hne]
      case isFalse => rw [List.mem_cons, ih]
    | inside => rw [compact, List.mem_cons, List.mem_cons, ih]
    | escaped => rw [compact, List.mem_cons, List.mem_cons, ih]

theorem compact_of_not_mem (h : quote ∉ t) : compact .outside t = t.filter fun b => !isBlank b := by
  induction t with
  | nil => rfl
  | cons c t ih =>
    rw [List.mem_cons, not_or] at h
    rw [compact, List.filter_cons, ih h.2, if_neg (Ne.symm h.1), ih h.2]
    cases isBlank c <;> rfl

theorem compact_stripstr (h : quote ∉ t) : compact .outside (stripstr t) = compact .outside t := by
  have hstrip : stripstr t = t.filter fun b => !isBlank b := by
    refine List.filter_congr fun b hb => ?_
    have hne : b ≠ quote := fun heq => h (heq ▸ hb)
    rw [decide_eq_false hne, Bool.or_false]
  rw [compact_of_not_mem h, compact_of_not_mem fun hmem => (mem_stripstr.mp hmem).2.2 rfl, hstrip, List.filter_filter]
  exact List.filter_congr fun b _ => Bool.and_self _

/-- **A text comes back** exactly when it has no quotes, is ASCII and gets shorter. -/
theorem lossless_iff_of_text (hjsn : encodeJson z t = some jsn) : Lossless z heap jsn t ↔
    quote ∉ t ∧ (∀ b ∈ t, isCode b = false) ∧ (z.compress (stripstr t)).length ≤ (stripstr t).length := by
  unfold Lossless
  rw [decodeJson_of_encodeJson hjsn]
  constructor
  · rintro ⟨decoded, hdecoded, hcompact⟩
    obtain ⟨⟨hle, -⟩, heq⟩ := Option.ite_none_right_eq_some.mp hdecoded
    obtain rfl := Option.some.inj heq
    have hmem {b : BitVec 8} (hb : isBlank b = false) : b ∈ (stripstr t).flatMap expand ↔ b ∈ t := by
      rw [← @mem_compact _ _ .outside hb, hcompact, mem_compact hb]
    have hascii : ∀ b ∈ t, isCode b = false := by
      intro b hb
      by_contra hcode
      have hblank : isBlank b = false := by
        by_contra hblank
        exact hcode (isCode_of_isBlank (Bool.of_not_eq_false hblank))
      obtain ⟨c, -, hc⟩ := List.mem_flatMap.mp ((hmem hblank).mpr hb)
      exact hcode (isCode_of_mem_expand hc)
    have hstrip : (stripstr t).flatMap expand = stripstr t :=
      flatMap_expand fun b hb => hascii b (mem_stripstr.mp hb).1
    refine ⟨fun hquote => ?_, hascii, hle⟩
    rw [← hmem isBlank_quote, hstrip] at hquote
    exact (mem_stripstr.mp hquote).2.2 rfl
  · rintro ⟨hquote, hascii, hle⟩
    have hstrip : (stripstr t).flatMap expand = stripstr t :=
      flatMap_expand fun b hb => hascii b (mem_stripstr.mp hb).1
    rw [hstrip]
    exact ⟨stripstr t, if_pos ⟨hle, List.length_filter_le _ _⟩, compact_stripstr hquote⟩

end

/-! ## JSON texts without strings -/

theorem IsDigits.isCode {s : Bytes} (h : IsDigits s) : ∀ b ∈ s, isCode b = false := by
  have hall : ∀ b ∈ bytes "0123456789", Jsoncodec.isCode b = false := by decide
  exact fun b hb => hall b (h.2 b hb)

theorem IsNumber.isCode {s : Bytes} (h : IsNumber s) : ∀ b ∈ s, isCode b = false := by
  obtain ⟨sign, int, frac, exp, rfl, hsign, hint, -, hfrac, hexp⟩ := h.parts
  simp only [List.forall_mem_append]
  refine ⟨⟨⟨?_, hint.isCode⟩, ?_⟩, ?_⟩
  · rcases hsign with rfl | rfl
    · exact List.forall_mem_nil _
    · decide
  · rcases hfrac with rfl | ⟨digits, rfl, hdigits⟩
    · exact List.forall_mem_nil _
    · exact List.forall_mem_cons.mpr ⟨by decide, hdigits.isCode⟩
  · rcases hexp with rfl | ⟨e, sign, digits, rfl, he, hsign, hdigits⟩
    · exact List.forall_mem_nil _
    · refine List.forall_mem_append.mpr ⟨List.forall_mem_cons.mpr ⟨?_, ?_⟩, hdigits.isCode⟩
      · have hall : ∀ b ∈ bytes "eE", Jsoncodec.isCode b = false := by decide
        exact hall e he
      · rcases hsign with rfl | rfl | rfl
        · exact List.forall_mem_nil _
        · decide
        · decide

theorem IsString.quote_mem {s : Bytes} (h : IsString s) : quote ∈ s := by
  obtain ⟨body, -, rfl⟩ := h
  exact List.mem_cons_self

/-- Only strings hold characters that are not ASCII. -/
theorem Derives.isCode {sym : Symbol} {s : Bytes} (h : Derives sym s) (hquote : quote ∉ s) :
    ∀ b ∈ s, isCode b = false := by
  have hblanks {w : Bytes} (hw : Blanks w) : ∀ b ∈ w, Jsoncodec.isCode b = false :=
    fun b hb => isCode_of_isBlank (hw b hb)
  have hbracket (l r : Char) (hl : Jsoncodec.isCode (byte l) = false) (hr : Jsoncodec.isCode (byte r) = false)
      {w : Bytes} (hw : ∀ b ∈ w, Jsoncodec.isCode b = false) :
      ∀ b ∈ byte l :: w ++ [byte r], Jsoncodec.isCode b = false :=
    List.forall_mem_append.mpr ⟨List.forall_mem_cons.mpr ⟨hl, hw⟩, List.forall_mem_singleton.mpr hr⟩
  have hseparated (c : Char) (hc : Jsoncodec.isCode (byte c) = false) {s s' : Bytes}
      (hs : ∀ b ∈ s, Jsoncodec.isCode b = false) (hs' : ∀ b ∈ s', Jsoncodec.isCode b = false) :
      ∀ b ∈ s ++ byte c :: s', Jsoncodec.isCode b = false :=
    List.forall_mem_append.mpr ⟨hs, List.forall_mem_cons.mpr ⟨hc, hs'⟩⟩
  induction h with
  | literal h =>
    rcases h with rfl | rfl | rfl
    · decide
    · decide
    · decide
  | number h => exact h.isCode
  | string h => exact absurd h.quote_mem hquote
  | emptyArray hw => exact hbracket '[' ']' (by decide) (by decide) (hblanks hw)
  | array _ ih => exact hbracket '[' ']' (by decide) (by decide) (ih fun h => hquote (by simp [h]))
  | emptyObject hw => exact hbracket '{' '}' (by decide) (by decide) (hblanks hw)
  | object _ ih => exact hbracket '{' '}' (by decide) (by decide) (ih fun h => hquote (by simp [h]))
  | element hw hw' _ ih =>
    simp only [List.forall_mem_append]
    exact ⟨⟨hblanks hw, ih fun h => hquote (by simp [h])⟩, hblanks hw'⟩
  | elements _ ih => exact ih hquote
  | moreElements _ _ ih ih' =>
    exact hseparated ',' (by decide) (ih fun h => hquote (by simp [h])) (ih' fun h => hquote (by simp [h]))
  | member _ _ hname _ _ => exact absurd hname.quote_mem fun h => hquote (by simp [h])
  | members _ ih => exact ih hquote
  | moreMembers _ _ ih ih' =>
    exact hseparated ',' (by decide) (ih fun h => hquote (by simp [h])) (ih' fun h => hquote (by simp [h]))

/-- **A JSON text comes back** exactly when it has no strings and `compress2` makes it shorter. -/
theorem lossless_iff (z : Zlib) (heap t : Bytes) (jsn : CompressedJson) (ht : Valid t)
    (hjsn : encodeJson z t = some jsn) :
    Lossless z heap jsn t ↔ quote ∉ t ∧ (z.compress (stripstr t)).length ≤ (stripstr t).length := by
  rw [lossless_iff_of_text hjsn]
  exact and_congr_right fun hquote => and_iff_right (Derives.isCode ht hquote)

/-! ## A compressor -/

/-- Each byte after a one, and a zero at the end. -/
def mark : Bytes → Bytes
  | [] => [0]
  | b :: s => 1 :: b :: mark s

def unmark : Bytes → Option Bytes
  | m :: b :: s =>
    if m = 0 then some [] else if m = 1 then (unmark s).map fun src => b :: src else none
  | [m] => if m = 0 then some [] else none
  | [] => none

theorem unmark_zero (s : Bytes) : unmark (0 :: s) = some [] := by
  cases s with
  | nil => rfl
  | cons b s => rw [unmark, if_pos rfl]

theorem unmark_one (b : BitVec 8) (s : Bytes) : unmark (1 :: b :: s) = (unmark s).map fun src => b :: src := by
  rw [unmark, if_neg (by decide), if_pos rfl]

theorem unmark_mark (src rest : Bytes) : unmark (mark src ++ rest) = some src := by
  induction src with
  | nil => exact unmark_zero rest
  | cons b src ih =>
    rw [mark, List.cons_append, List.cons_append, unmark_one, ih]
    rfl

theorem unmark_take {k : Nat} {src : Bytes} (h : k < (mark src).length) : unmark ((mark src).take k) = none := by
  induction src generalizing k with
  | nil =>
    obtain rfl : k = 0 := Nat.lt_one_iff.mp h
    rfl
  | cons b src ih =>
    rcases k with _ | _ | k
    · rfl
    · rfl
    · rw [mark, List.take_succ_cons, List.take_succ_cons, unmark_one,
        ih (Nat.lt_of_succ_lt_succ (Nat.lt_of_succ_lt_succ h))]
      rfl

/-- The first byte of what `zlib` makes. -/
def zlibHead : BitVec 8 := 0x78

theorem mark_head (src rest : Bytes) : (mark src ++ rest).head? ≠ some zlibHead := by
  cases src with
  | nil =>
    show some (0 : BitVec 8) ≠ some zlibHead
    decide
  | cons b src =>
    show some (1 : BitVec 8) ≠ some zlibHead
    decide

theorem unmark_of_head {s : Bytes} (h : s.head? = some zlibHead) : unmark s = none := by
  cases s with
  | nil => rfl
  | cons m s =>
    obtain rfl := Option.some.inj h
    cases s with
    | nil => rfl
    | cons b s => rw [unmark, if_neg (by decide), if_neg (by decide)]

theorem head_of_prefixed {s s' : Bytes} (h : s <+: s') (hs : s.head? = some zlibHead) : s'.head? = some zlibHead := by
  obtain ⟨rest, rfl⟩ := h
  cases s with
  | nil => cases hs
  | cons b s => exact hs

/-- A compressor that knows what the real one makes of one text, and marks the bytes of any other. -/
def knowing (src out : Bytes) (hout : out.head? = some zlibHead) : Zlib where
  compress s := if s = src then out else mark s
  uncompress n s := (if out <+: s then some src else unmark s).filter fun s => s.length ≤ n
  inverse s rest n hn := by
    have hfilter : (some s).filter (fun s => s.length ≤ n) = some s := Option.filter_some_pos (by simpa using hn)
    split
    case isTrue hs =>
      rw [if_pos (List.prefix_append out rest), ← hs, hfilter]
    case isFalse hs =>
      rw [if_neg fun hpre => mark_head s rest (head_of_prefixed hpre hout), unmark_mark, hfilter]
  incomplete s n k hk := by
    split at hk
    case isTrue hs =>
      have hpre : ¬out <+: out.take k := by
        intro hpre
        have hlen := hpre.length_le
        rw [List.length_take] at hlen
        omega
      rw [if_pos hs, if_neg hpre]
      cases k with
      | zero => rfl
      | succ k =>
        rw [unmark_of_head (by rw [List.head?_take, if_neg k.succ_ne_zero, hout])]
        rfl
    case isFalse hs =>
      have hpre : ¬out <+: (mark s).take k := by
        intro hpre
        have hhead := head_of_prefixed (hpre.trans (List.take_prefix k _)) hout
        rw [← List.append_nil (mark s)] at hhead
        exact mark_head s [] hhead
      rw [if_neg hs, if_neg hpre, unmark_take hk]
      rfl

theorem stringBody_of_all {s : Bytes}
    (h : s.all (fun b => 0x20 ≤ b.toNat ∧ b ≠ quote ∧ b ≠ byte '\\') = true) : StringBody s := by
  induction s with
  | nil => exact .nil
  | cons b s ih =>
    rw [List.all_cons, Bool.and_eq_true] at h
    obtain ⟨hle, hquote, hslash⟩ := of_decide_eq_true h.1
    exact .char hle hquote hslash (ih h.2)

theorem valid_of_digits {s : Bytes} (hne : s ≠ []) (hhead : s.head? = some (byte '0') → s.length = 1)
    (hall : s.all (fun b => b ∈ bytes "0123456789") = true) : Derives .element s := by
  have hdigits : IsDigits s := ⟨hne, fun b hb => of_decide_eq_true (List.all_eq_true.mp hall b hb)⟩
  have hnumber : IsNumber s := ⟨[], s, [], [], by simp, .inl rfl, hdigits, hhead, .inl rfl, .inl rfl⟩
  have hblank : Blanks [] := List.forall_mem_nil _
  have helement := Derives.element hblank hblank (.number hnumber)
  rwa [List.nil_append, List.append_nil] at helement

def ones : Bytes := bytes "11111111111111111111"

/-- A number that gets shorter. -/
theorem lossless_iff_ones :
    ∃ z jsn, encodeJson z ones = some jsn ∧ Lossless z [] jsn ones := by
  let z := knowing ones [0x78, 0xda, 0x33, 0x34, 0xc4, 0x04, 0x00, 0x28, 0x46, 0x03, 0xd5] rfl
  have hjsn : encodeJson z ones = some
      { complen := 11, sublen := 20, origlen := 20,
        encoded := [0x78, 0xda, 0x33, 0x34, 0xc4, 0x04, 0x00, 0x28, 0x46, 0x03, 0xd5] } := by
    decide +kernel
  refine ⟨z, _, hjsn, (lossless_iff z [] ones _ ?_ hjsn).mpr ⟨by decide, by decide +kernel⟩⟩
  exact valid_of_digits (by decide) (by decide) (by decide +kernel)

def accountText : Bytes := bytes "\x7b\"account\":11111111111111111111\x7d"

/-- The quotes of a name do not come back. -/
theorem not_forall_lossless : ¬∀ (z : Zlib) (heap t : Bytes) (jsn : CompressedJson),
    Valid t → encodeJson z t = some jsn → Lossless z heap jsn t := by
  intro h
  let z := knowing (bytes "\x7baccount:11111111111111111111\x7d") [0x78, 0xda, 0xab, 0x4e, 0x4c, 0x4e, 0xce, 0x2f, 0xcd,
    0x2b, 0xb1, 0x32, 0xc4, 0x02, 0x6a, 0x01, 0x8b, 0xb8, 0x07, 0xf4] rfl
  have hblank : Blanks [] := List.forall_mem_nil _
  have hname : IsString (bytes "\"account\"") :=
    ⟨bytes "account", stringBody_of_all (by decide +kernel), by decide +kernel⟩
  have hones : Derives .element ones := valid_of_digits (by decide) (by decide) (by decide +kernel)
  have hmember := Derives.member hblank hblank hname hones
  have hvalid := Derives.element hblank hblank (.object (.members hmember))
  have htext : accountText =
      [] ++ (byte '{' :: ([] ++ bytes "\"account\"" ++ [] ++ byte ':' :: ones) ++ [byte '}']) ++ [] := by
    decide +kernel
  let jsn : CompressedJson :=
    { complen := 20, sublen := 30, origlen := 32, encoded := z.compress (stripstr accountText) }
  have hjsn : encodeJson z accountText = some jsn := by decide +kernel
  obtain ⟨decoded, hdecoded, hcompact⟩ := h z [] accountText jsn (htext ▸ hvalid) hjsn
  have hbare : decodeJson z [] jsn = some (bytes "\x7baccount:11111111111111111111\x7d") := by decide +kernel
  obtain rfl := Option.some.inj (hdecoded.symm.trans hbare)
  exact absurd hcompact (by decide +kernel)

end NXTServices.Jsoncodec
