import NXTServices.Gateway.Bindings
import NXTServices.Gateway.Comment
import NXTServices.Gateway.Conf
import NXTServices.Spelling

/-!
# The message of a deposit address: `create_multisig_json` of `genjson.h` and `decode_msigjson` of `multisig.h`

* `calcPubkeyJsontxt`, `createMultisigJson` : the text;
* `Printable` : the addresses whose texts are printable and fit;
* `createMultisigJson_eq` : the text fits in its buffers;
* `msigFields`, `spells_jsontxt` : the node that the text spells;
* `decodeMsigjson_createMultisigJson` : the address is read back.
-/

namespace NXTServices.Gateway
open Json hiding null true false
open Torrent (decimal)

/-! ## Writing -/

def calcPubkeyJsontxt (ptr : PubkeyInfo) (suffix : Text) : Text :=
  "\x7b\"address\":\"".toList ++ ptr.coinaddr ++ "\",\"pubkey\":\"".toList ++ ptr.pubkey ++ "\",\"ipaddr\":\"".toList ++
    ptr.server ++ "\"\x7d".toList ++ suffix

/-- `char pubkeyjsontxt[1024]`. -/
def pubkeyJsontxt (msig : MultisigAddr) : Text :=
  calcPubkeyJsontxt (msig.pubkeys.getD 0 {}) ",".toList ++ calcPubkeyJsontxt (msig.pubkeys.getD 1 {}) ",".toList ++
    calcPubkeyJsontxt (msig.pubkeys.getD 2 {}) []

/-- `char jsontxt[2048]`. -/
def jsontxt (msig : MultisigAddr) : Text :=
  "\x7b\"NXTaddr\":\"".toList ++ msig.nxtAddr ++ "\",\"address\":\"".toList ++ msig.multisigaddr ++
    "\",\"redeemScript\":\"".toList ++ msig.redeemScript ++ "\",\"coin\":\"".toList ++ coinidStr msig.coinid ++
    "\",\"coinid\":\"".toList ++ decimal msig.coinid ++ "\",\"pubkey\":[".toList ++ pubkeyJsontxt msig ++ "]\x7d".toList

/-- `none` is a write behind the end of a buffer. -/
def createMultisigJson (msig : MultisigAddr) : Option Text :=
  if (pubkeyJsontxt msig).length < 1024 ∧ (jsontxt msig).length < 2048 then some (clonestr (jsontxt msig)) else none

/-! ## The addresses -/

/-- The text is printable and fits in `size` characters. -/
def Fits (size : Nat) (str : Text) : Prop := Unescaped str ∧ str.length < size

instance (size : Nat) (str : Text) : Decidable (Fits size str) := inferInstanceAs (Decidable (_ ∧ _))

structure PrintableKey (ptr : PubkeyInfo) : Prop where
  pubkey : Fits 128 ptr.pubkey
  coinaddr : Fits 64 ptr.coinaddr
  server : Fits 64 ptr.server

/-- A named coin, a key for each gateway, and texts that fit in their fields. -/
structure Printable (msig : MultisigAddr) : Prop where
  coin : coinidStr msig.coinid ≠ illegalCoin
  pubkeys : msig.pubkeys.length = numGateways
  nxtAddr : Fits maxNxtaddrLen msig.nxtAddr
  multisigaddr : Fits 64 msig.multisigaddr
  redeemScript : Fits 256 msig.redeemScript
  keys : ∀ ptr ∈ msig.pubkeys, PrintableKey ptr

/-! ## The node -/

/-- An object as it is written, from the names of its members, their texts and their nodes. -/
def fieldsText (fields : List (String × Text × Json)) : Text :=
  '\x7b' :: (elements (fields.map fun f => memberText f.1.toList f.2.1) ++ ['\x7d'])

def fieldsNode (fields : List (String × Text × Json)) : Json := objectOf (fields.map fun f => (f.1, some f.2.2))

def pubkeyFields (ptr : PubkeyInfo) : List (String × Text × Json) :=
  [ ("address", quoted ptr.coinaddr, string ptr.coinaddr),
    ("pubkey", quoted ptr.pubkey, string ptr.pubkey),
    ("ipaddr", quoted ptr.server, string ptr.server) ]

/-- The keys of the gateways as they are written. -/
def pubkeysText (pubkeys : List PubkeyInfo) : Text :=
  '[' :: (elements (pubkeys.map fun ptr => fieldsText (pubkeyFields ptr)) ++ [']'])

def pubkeysNode (pubkeys : List PubkeyInfo) : Json := array (pubkeys.map fun ptr => fieldsNode (pubkeyFields ptr))

def msigFields (msig : MultisigAddr) : List (String × Text × Json) :=
  [ ("NXTaddr", quoted msig.nxtAddr, string msig.nxtAddr),
    ("address", quoted msig.multisigaddr, string msig.multisigaddr),
    ("redeemScript", quoted msig.redeemScript, string msig.redeemScript),
    ("coin", quoted (coinidStr msig.coinid), string (coinidStr msig.coinid)),
    ("coinid", quoted (decimal msig.coinid), string (decimal msig.coinid)),
    ("pubkey", pubkeysText msig.pubkeys, pubkeysNode msig.pubkeys) ]

theorem calcPubkeyJsontxt_eq (ptr : PubkeyInfo) (suffix : Text) : calcPubkeyJsontxt ptr suffix =
    fieldsText (pubkeyFields ptr) ++ suffix := by
  have haddress : "\x7b\"address\":\"".toList = '\x7b' :: '"' :: ("address".toList ++ ['"', ':', '"']) := rfl
  have hpubkey : "\",\"pubkey\":\"".toList = '"' :: ',' :: '"' :: ("pubkey".toList ++ ['"', ':', '"']) := rfl
  have hipaddr : "\",\"ipaddr\":\"".toList = '"' :: ',' :: '"' :: ("ipaddr".toList ++ ['"', ':', '"']) := rfl
  have hend : "\"\x7d".toList = ['"', '\x7d'] := rfl
  unfold calcPubkeyJsontxt fieldsText pubkeyFields
  simp only [haddress, hpubkey, hipaddr, hend, List.map_cons, List.map_nil, elements, memberText, quoted,
    List.append_assoc, List.cons_append, List.nil_append]

theorem jsontxt_eq {msig : MultisigAddr} (hpubkeys : msig.pubkeys.length = numGateways) :
    jsontxt msig = fieldsText (msigFields msig) := by
  obtain ⟨p, q, r, hkeys⟩ := List.length_eq_three.mp hpubkeys
  have hnxt : "\x7b\"NXTaddr\":\"".toList = '\x7b' :: '"' :: ("NXTaddr".toList ++ ['"', ':', '"']) := rfl
  have haddress : "\",\"address\":\"".toList = '"' :: ',' :: '"' :: ("address".toList ++ ['"', ':', '"']) := rfl
  have hscript : "\",\"redeemScript\":\"".toList =
      '"' :: ',' :: '"' :: ("redeemScript".toList ++ ['"', ':', '"']) := rfl
  have hcoin : "\",\"coin\":\"".toList = '"' :: ',' :: '"' :: ("coin".toList ++ ['"', ':', '"']) := rfl
  have hcoinid : "\",\"coinid\":\"".toList = '"' :: ',' :: '"' :: ("coinid".toList ++ ['"', ':', '"']) := rfl
  have hpubkey : "\",\"pubkey\":[".toList = '"' :: ',' :: '"' :: ("pubkey".toList ++ ['"', ':', '[']) := rfl
  have hcomma : ",".toList = [','] := rfl
  have hend : "]\x7d".toList = [']', '\x7d'] := rfl
  have hkeysText : pubkeysText [p, q, r] = '[' :: (fieldsText (pubkeyFields p) ++ ',' :: (fieldsText (pubkeyFields q) ++
      ',' :: (fieldsText (pubkeyFields r) ++ [']']))) := by
    unfold pubkeysText
    simp only [List.map_cons, List.map_nil, elements, List.append_assoc, List.cons_append]
  have htext : fieldsText (msigFields msig) = '\x7b' :: (elements ((msigFields msig).map fun f =>
      memberText f.1.toList f.2.1) ++ ['\x7d']) := rfl
  rw [htext]
  unfold jsontxt pubkeyJsontxt msigFields
  simp only [calcPubkeyJsontxt_eq, hkeysText, hnxt, haddress, hscript, hcoin, hcoinid, hpubkey, hcomma, hend, hkeys,
    List.getD_cons_zero, List.getD_cons_succ, List.map_cons, List.map_nil, elements, memberText, quoted,
    List.append_assoc,
    List.cons_append, List.nil_append, List.append_nil]

theorem length_calcPubkeyJsontxt {ptr : PubkeyInfo} (h : PrintableKey ptr) (suffix : Text) :
    (calcPubkeyJsontxt ptr suffix).length ≤ 291 + suffix.length := by
  have haddress : "\x7b\"address\":\"".toList.length = 12 := rfl
  have hpubkey : "\",\"pubkey\":\"".toList.length = 12 := rfl
  have hipaddr : "\",\"ipaddr\":\"".toList.length = 12 := rfl
  have hend : "\"\x7d".toList.length = 2 := rfl
  obtain ⟨⟨-, hkey⟩, ⟨-, hcoinaddr⟩, ⟨-, hserver⟩⟩ := h
  unfold calcPubkeyJsontxt
  simp only [List.length_append, haddress, hpubkey, hipaddr, hend]
  omega

theorem length_pubkeyJsontxt {msig : MultisigAddr} (h : Printable msig) : (pubkeyJsontxt msig).length ≤ 875 := by
  obtain ⟨p, q, r, hkeys⟩ := List.length_eq_three.mp h.pubkeys
  have hkey : ∀ ptr ∈ [p, q, r], PrintableKey ptr := hkeys ▸ h.keys
  simp only [List.forall_mem_cons] at hkey
  obtain ⟨hp, hq, hr, -⟩ := hkey
  have hcomma : ",".toList.length = 1 := rfl
  have hlengthp := length_calcPubkeyJsontxt hp ",".toList
  have hlengthq := length_calcPubkeyJsontxt hq ",".toList
  have hlengthr := length_calcPubkeyJsontxt hr []
  unfold pubkeyJsontxt
  rw [hkeys, List.length_append, List.length_append]
  simp only [List.getD_cons_zero, List.getD_cons_succ]
  rw [hcomma] at hlengthp hlengthq
  rw [List.length_nil] at hlengthr
  omega

theorem length_jsontxt (msig : MultisigAddr) : (jsontxt msig).length =
    79 + msig.nxtAddr.length + msig.multisigaddr.length + msig.redeemScript.length + (coinidStr msig.coinid).length +
      (decimal msig.coinid).length + (pubkeyJsontxt msig).length := by
  have hnxt : "\x7b\"NXTaddr\":\"".toList.length = 12 := rfl
  have haddress : "\",\"address\":\"".toList.length = 13 := rfl
  have hscript : "\",\"redeemScript\":\"".toList.length = 18 := rfl
  have hcoin : "\",\"coin\":\"".toList.length = 10 := rfl
  have hcoinid : "\",\"coinid\":\"".toList.length = 12 := rfl
  have hpubkey : "\",\"pubkey\":[".toList.length = 12 := rfl
  have hend : "]\x7d".toList.length = 2 := rfl
  unfold jsontxt
  simp only [List.length_append, hnxt, haddress, hscript, hcoin, hcoinid, hpubkey, hend]
  omega

theorem named_bounds {coinid : Int} (h : coinidStr coinid ≠ illegalCoin) :
    0 < coinid ∧ coinid < 64 ∧ Fits 5 (coinidStr coinid) ∧ Fits 3 (decimal coinid) := by
  unfold coinidStr at h ⊢
  split at h
  all_goals first | decide | exact absurd rfl h

theorem createMultisigJson_eq {msig : MultisigAddr} (h : Printable msig) :
    createMultisigJson msig = some (jsontxt msig) := by
  have hpubkeys := length_pubkeyJsontxt h
  have hlength : (jsontxt msig).length < 2048 := by
    have hnxt : msig.nxtAddr.length < 24 := h.nxtAddr.2
    have haddr := h.multisigaddr.2
    have hscript := h.redeemScript.2
    obtain ⟨-, -, ⟨-, hcoin⟩, -, hcoinid⟩ := named_bounds h.coin
    rw [length_jsontxt]
    omega
  have hne : jsontxt msig ≠ [] := by
    rw [jsontxt_eq h.pubkeys]
    exact List.cons_ne_nil _ _
  rw [createMultisigJson, if_pos ⟨by omega, hlength⟩, clonestr, if_neg hne]

/-! ## Reading -/

section
variable {render : Text → Text}

theorem spells_fields {fields : List (String × Text × Json)} (hne : fields ≠ [])
    (hnames : ∀ name ∈ fields.map Prod.fst, Unescaped name.toList)
    (hitems : ∀ item ∈ fields.map Prod.snd, Spells render item.1 item.2) :
    Spells render (fieldsText fields) (fieldsNode fields) := by
  have hobject : Spells render _ _ := spells_object (mt List.map_eq_nil_iff.mp hne) fun m hm => by
    obtain ⟨f, hf, rfl⟩ : ∃ f ∈ fields, (f.1.toList, f.2) = m := List.mem_map.mp hm
    exact ⟨hnames f.1 (List.mem_map_of_mem hf), hitems f.2 (List.mem_map_of_mem hf)⟩
  have hnode : fieldsNode fields = object (fields.map fun f => (f.1.toList, f.2.2)) := by
    rw [fieldsNode, objectOf, List.filterMap_map]
    exact congrArg object (congrFun List.filterMap_eq_map fields)
  rw [List.map_map, List.map_map] at hobject
  rw [hnode]
  exact hobject

theorem getObjectItem_fieldsNode {fields : List (String × Text × Json)} {name : String} {text : Text} {item : Json}
    (hdistinct : ((fields.map Prod.fst).map fun name => name.toList.map tolower).Nodup)
    (hmem : (name, text, item) ∈ fields) : getObjectItem (fieldsNode fields) name.toList = some item := by
  apply getObjectItem_objectOf
  · rw [List.map_map] at hdistinct ⊢
    exact hdistinct
  · exact List.mem_map.mpr ⟨_, hmem, rfl⟩

/-! ### A key -/

theorem spells_pubkey {ptr : PubkeyInfo} (h : PrintableKey ptr) :
    Spells render (fieldsText (pubkeyFields ptr)) (fieldsNode (pubkeyFields ptr)) := by
  apply spells_fields (List.cons_ne_nil _ _)
  · show ∀ name ∈ ["address", "pubkey", "ipaddr"], Unescaped name.toList
    decide
  · show ∀ item ∈ [(quoted ptr.coinaddr, string ptr.coinaddr), (quoted ptr.pubkey, string ptr.pubkey),
      (quoted ptr.server, string ptr.server)], Spells render item.1 item.2
    simp only [List.forall_mem_cons]
    exact ⟨spells_string h.coinaddr.1, spells_string h.pubkey.1, spells_string h.server.1, List.forall_mem_nil _⟩

end

theorem copyCJSON_fits {size : Nat} {str : Text} (h : Fits size str) : copyCJSON (some (string str)) = str := by
  rw [copyCJSON_string, h.1.flatMap_escapeChar]

theorem readPubkey_pubkeyFields {ptr : PubkeyInfo} (h : PrintableKey ptr) :
    readPubkey (fieldsNode (pubkeyFields ptr)) = ptr := by
  have hdistinct : (((pubkeyFields ptr).map Prod.fst).map fun name => name.toList.map tolower).Nodup := by
    show (["address", "pubkey", "ipaddr"].map fun name => name.toList.map tolower).Nodup
    decide
  have haddress : getObjectItem (fieldsNode (pubkeyFields ptr)) "address".toList = some (string ptr.coinaddr) :=
    getObjectItem_fieldsNode hdistinct (.head _)
  have hkey : getObjectItem (fieldsNode (pubkeyFields ptr)) "pubkey".toList = some (string ptr.pubkey) :=
    getObjectItem_fieldsNode hdistinct (.tail _ (.head _))
  have hipaddr : getObjectItem (fieldsNode (pubkeyFields ptr)) "ipaddr".toList = some (string ptr.server) :=
    getObjectItem_fieldsNode hdistinct (.tail _ (.tail _ (.head _)))
  unfold readPubkey
  rw [haddress, hkey, hipaddr, copyCJSON_fits h.pubkey, copyCJSON_fits h.coinaddr, copyCJSON_fits h.server]

/-! ### The address -/

theorem spells_pubkeys {render : Text → Text} {msig : MultisigAddr} (h : Printable msig) :
    Spells render (pubkeysText msig.pubkeys) (pubkeysNode msig.pubkeys) := by
  have hne : msig.pubkeys ≠ [] := by
    intro hnil
    have hlength := h.pubkeys
    rw [hnil] at hlength
    cases hlength
  have harray : Spells render _ _ := spells_array (mt List.map_eq_nil_iff.mp hne) fun m hm => by
    obtain ⟨ptr, hptr, rfl⟩ :
        ∃ ptr ∈ msig.pubkeys, (fieldsText (pubkeyFields ptr), fieldsNode (pubkeyFields ptr)) = m :=
      List.mem_map.mp hm
    exact spells_pubkey (h.keys ptr hptr)
  rw [List.map_map, List.map_map] at harray
  exact harray

/-- **The text of an address spells its node.** -/
theorem spells_jsontxt {render : Text → Text} {msig : MultisigAddr} (h : Printable msig) :
    Spells render (jsontxt msig) (fieldsNode (msigFields msig)) := by
  obtain ⟨-, -, hcoin, hcoinid⟩ := named_bounds h.coin
  rw [jsontxt_eq h.pubkeys]
  apply spells_fields (List.cons_ne_nil _ _)
  · show ∀ name ∈ ["NXTaddr", "address", "redeemScript", "coin", "coinid", "pubkey"], Unescaped name.toList
    decide
  · show ∀ item ∈ [(quoted msig.nxtAddr, string msig.nxtAddr), (quoted msig.multisigaddr, string msig.multisigaddr),
      (quoted msig.redeemScript, string msig.redeemScript),
      (quoted (coinidStr msig.coinid), string (coinidStr msig.coinid)),
      (quoted (decimal msig.coinid), string (decimal msig.coinid)),
      (pubkeysText msig.pubkeys, pubkeysNode msig.pubkeys)],
      Spells render item.1 item.2
    simp only [List.forall_mem_cons]
    exact ⟨spells_string h.nxtAddr.1, spells_string h.multisigaddr.1, spells_string h.redeemScript.1,
      spells_string hcoin.1, spells_string hcoinid.1, spells_pubkeys h, List.forall_mem_nil _⟩

/-- The address is read back, with the numbers of the gateways. -/
theorem decodeMsigjson_msigFields {msig : MultisigAddr} (h : Printable msig) :
    decodeMsigjson msig.nxtAddr (fieldsNode (msigFields msig)) =
      some { msig with m := numGateways - 1, n := numGateways } := by
  obtain ⟨hlow, hhigh, hcoin, hcoinid⟩ := named_bounds h.coin
  have hdistinct : (((msigFields msig).map Prod.fst).map fun name => name.toList.map tolower).Nodup := by
    show (["NXTaddr", "address", "redeemScript", "coin", "coinid",
        "pubkey"].map fun name => name.toList.map tolower).Nodup
    decide
  have haddrobj : getObjectItem (fieldsNode (msigFields msig)) "address".toList = some (string msig.multisigaddr) :=
    getObjectItem_fieldsNode hdistinct (.tail _ (.head _))
  have hredeemobj : getObjectItem (fieldsNode (msigFields msig)) "redeemScript".toList =
      some (string msig.redeemScript) :=
    getObjectItem_fieldsNode hdistinct (.tail _ (.tail _ (.head _)))
  have hnameobj : getObjectItem (fieldsNode (msigFields msig)) "coin".toList = some (string (coinidStr msig.coinid)) :=
    getObjectItem_fieldsNode hdistinct (.tail _ (.tail _ (.tail _ (.head _))))
  have hcoinidobj : getObjectItem (fieldsNode (msigFields msig)) "coinid".toList =
      some (string (decimal msig.coinid)) :=
    getObjectItem_fieldsNode hdistinct (.tail _ (.tail _ (.tail _ (.tail _ (.head _)))))
  have hpubkeysobj : getObjectItem (fieldsNode (msigFields msig)) "pubkey".toList = some (pubkeysNode msig.pubkeys) :=
    getObjectItem_fieldsNode hdistinct (.tail _ (.tail _ (.tail _ (.tail _ (.tail _ (.head _))))))
  have hnumber : int32 (getCJSONInt (fieldsNode (msigFields msig)) "coinid".toList) = msig.coinid := by
    have hread : getCJSONInt (fieldsNode (msigFields msig)) "coinid".toList = msig.coinid := by
      apply getCJSONInt_of_decimal _ (by omega) (by omega)
      rw [hcoinidobj, copyCJSON_fits hcoinid]
    rw [hread]
    exact int32_eq (by omega) (by omega)
  have hnumkeys : (pubkeysNode msig.pubkeys).items.length = numGateways := by
    rw [← h.pubkeys]
    exact List.length_map _
  have hkeys : (pubkeysNode msig.pubkeys).items.map readPubkey = msig.pubkeys := by
    show (msig.pubkeys.map _).map readPubkey = msig.pubkeys
    rw [List.map_map]
    exact (List.map_congr_left fun ptr hptr => readPubkey_pubkeyFields (h.keys ptr hptr)).trans (List.map_id _)
  have hnxtAddr : safecopy msig.nxtAddr maxNxtaddrLen = msig.nxtAddr := List.take_of_length_le h.nxtAddr.2.le
  unfold decodeMsigjson
  simp only [hnumber, hnameobj, haddrobj, hredeemobj, hpubkeysobj, copyCJSON_fits hcoin, copyCJSON_fits h.multisigaddr,
    copyCJSON_fits h.redeemScript, ne_eq, not_true_eq_false, if_false, hnumkeys, if_true, hkeys, hnxtAddr]

/-- **The message of a deposit address is read back**: `msigcmp` finds the same address, of the same coin. -/
theorem decodeMsigjson_createMultisigJson (render : Text → Text) {msig : MultisigAddr} (h : Printable msig) :
    ∃ text json back, createMultisigJson msig = some text ∧ cJSONParse render text = some json ∧
      decodeMsigjson msig.nxtAddr json = some back ∧ msigcmp (some msig) back = 0 ∧ back.coinid = msig.coinid := by
  refine ⟨_, _, _, createMultisigJson_eq h, cJSONParse_spells (spells_jsontxt h), decodeMsigjson_msigFields h, ?_, rfl⟩
  apply (msigcmp_eq_zero_iff rfl).mpr
  exact (sameMsig_iff _ _).mpr rfl

/-- An address of `DOGE`. -/
theorem decodeMsigjson_createMultisigJson_at_doge :
    let msig : MultisigAddr :=
      { nxtAddr := "8989816935121514892".toList, multisigaddr := "9vdoge".toList, redeemScript := "522103ae".toList
        pubkeys := [⟨"02aa".toList, "Da".toList, "gw0".toList⟩, ⟨"02bb".toList, "Db".toList, "gw1".toList⟩,
          ⟨"03cc".toList, "Dc".toList, "gw2".toList⟩]
        m := 2, n := 3, coinid := 4 }
    ∃ text json back, createMultisigJson msig = some text ∧ cJSONParse id text = some json ∧
      decodeMsigjson msig.nxtAddr json = some back ∧ msigcmp (some msig) back = 0 ∧ back.coinid = 4 :=
  decodeMsigjson_createMultisigJson id
    { coin := by decide
      pubkeys := rfl
      nxtAddr := by decide
      multisigaddr := by decide
      redeemScript := by decide
      keys := List.forall_mem_cons.mpr ⟨⟨by decide, by decide, by decide⟩,
        List.forall_mem_cons.mpr ⟨⟨by decide, by decide, by decide⟩,
          List.forall_mem_singleton.mpr ⟨by decide, by decide, by decide⟩⟩⟩ }

end NXTServices.Gateway
