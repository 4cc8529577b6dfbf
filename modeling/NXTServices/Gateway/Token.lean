import NXTServices.Webjson

/-!
# The web requests of `multigateway.h`

* `multigatewayCommands` : the table of `multigateway_json_commands`;
* `multigatewayJsonhandler` : the requests, with the token of `[parms, token]`;
* `multigateway_fields_fixed_iff` : the requests whose token stands for nothing else.
-/

namespace NXTServices.Gateway
open Json hiding true false

/-- `dispcoininfo` calls `dispNXTacct_func` too. -/
def multigatewayCommands : List Command :=
  [ { func := "dispNXTacct_func".toList
      name := "dispNXTacct".toList
      needvalid := false
      fields := ["NXT".toList, "coin".toList, "assetid".toList] },
    { func := "genDepositaddrs_func".toList
      name := "genDepositaddrs".toList
      needvalid := true
      fields := ["NXT".toList, "coins".toList] },
    { func := "dispNXTacct_func".toList
      name := "dispcoininfo".toList
      needvalid := false
      fields := ["NXT".toList, "coin".toList, "nxtaddr".toList] },
    { func := "redeem_func".toList
      name := "redeem".toList
      needvalid := true
      fields := ["NXT".toList, "coin".toList, "amount".toList, "comment".toList] },
    { func := "changeurl_func".toList
      name := "changeurl".toList
      needvalid := false
      fields := ["URL".toList] } ]

/-- The answer to no argument at all, which runs no command, is left out. -/
def multigatewayJsonhandler (decodeToken : Text → Text → Text × Int) (argjson : Json) : Option FuncCall :=
  jsonhandler multigatewayCommands decodeToken argjson

/-- **A token authenticates what is executed** exactly when the request has none of the fields that a
command reads. -/
theorem multigateway_fields_fixed_iff (child : List (Text × Json)) (hplain : Plain (.object child)) :
    (∀ parms, Plain parms → signedText parms = signedText (.object child) →
        ∀ f ∈ readFields multigatewayCommands, fieldText parms f = fieldText (.object child) f) ↔
      ∀ m ∈ child, ∀ f ∈ readFields multigatewayCommands, ¬ Near f m.1 :=
  fields_fixed_iff (by decide) hplain

/-- A redemption of this amount. -/
def redeemRequest (amount : String) : List (Text × Json) :=
  [ ("requestType".toList, .string "redeem".toList),
    ("NXT".toList, .string "8989816935121514892".toList),
    ("coin".toList, .string "DOGE".toList),
    ("amount".toList, .string amount.toList) ]

theorem multigateway_fields_fixed_iff_redeem :
    (∀ parms, Plain parms → signedText parms = signedText (.object (redeemRequest "10")) →
        ∀ f ∈ readFields multigatewayCommands, fieldText parms f = fieldText (.object (redeemRequest "10")) f) ↔
      ∀ m ∈ redeemRequest "10", ∀ f ∈ readFields multigatewayCommands, ¬ Near f m.1 :=
  multigateway_fields_fixed_iff _ ⟨trivial, trivial, trivial, trivial, trivial⟩

/-- With one token, ten coins are redeemed or one. -/
theorem not_forall_fields_fixed :
    ¬ ∀ parms parms' : Json, Plain parms → Plain parms' → signedText parms = signedText parms' →
      ∀ f ∈ readFields multigatewayCommands, fieldText parms f = fieldText parms' f := by
  intro h
  have hsame := h (.object (redeemRequest "10")) (.object (redeemRequest "1 0"))
    ⟨trivial, trivial, trivial, trivial, trivial⟩ ⟨trivial, trivial, trivial, trivial, trivial⟩
    (by decide +kernel) "amount".toList (by decide)
  exact absurd hsame (by decide +kernel)


end NXTServices.Gateway
