import Vesta.Lib.Map
import Vesta.Lib.Text

/-!
# The gateway's credentials on a proxied request

A client presents a token in the `Authorization` header or in `token=` pairs of the
query.  The agent proxy takes the gateway's own tokens out of both before it
forwards a request, and forwards everything else.

A header map is a map from lowercase names to the values of the header in order,
which is all that the order of a header map is specified to be.  Checking the
signature and the expiry of a token is library code, and a parameter:
`decode key typ token` is the claims of a token that verifies under the key derived
for the role `typ`, at the time of the request.
-/

namespace Vesta
namespace Vestad
namespace AgentProxy

open Lib

/-- The bytes of a header value. -/
abbrev HeaderValue := List UInt8

/-- The values of each header, by its lowercase name. -/
abbrev HeaderMap := Map String (List HeaderValue)

/-- The values of a header, in order. -/
def values (headers : HeaderMap) (name : String) : List HeaderValue :=
  headers[name]?.getD []

/-- `HeaderMap::get`: the first value of a header. -/
def header (headers : HeaderMap) (name : String) : Option HeaderValue :=
  (values headers name).head?

def isVisibleAscii (b : UInt8) : Bool := (32 ≤ b && b < 127) || b == 9

/-- `HeaderValue::to_str`: the text of a value of visible ASCII only. -/
def toStr (value : HeaderValue) : Option Text :=
  if value.all isVisibleAscii then
    some (value.map fun b => Char.ofNat b.toNat)
  else
    none

def clientCredentialHeader : String := "authorization"

def clientCredentialQueryPrefix : Text := "token=".toList

/-- The bearer token that a header value carries. -/
def bearer (value : HeaderValue) : Option Text :=
  (toStr value).bind (stripPrefix "Bearer ".toList)

/-- The token that a query pair carries. -/
def pairToken (pair : Text) : Option Text := stripPrefix clientCredentialQueryPrefix pair

/-- The bearer value of the `Authorization` header, when it carries one. -/
def presentedBearer (headers : HeaderMap) : Option Text :=
  (header headers clientCredentialHeader).bind bearer

/-- Every credential the request presents. -/
def presentedTokens (headers : HeaderMap) (query : Option Text) : List Text :=
  (presentedBearer headers).toList ++
    query.toList.flatMap fun query => (query.splitOn '&').filterMap pairToken

/-- The claim of a token that the gateway reads. -/
structure Claims where
  typ : Text

/-- Compare all bytes whatever the first difference is. -/
def constantTimeEq (a b : List UInt8) : Bool :=
  if a.length ≠ b.length then
    false
  else
    (a.zip b).foldl (fun diff xy => diff ||| (xy.1 ^^^ xy.2)) 0 == 0

section Credentials

variable (decode : Text → Text → Text → Option Claims)

/-- `jwt::validate_token`: a token that verifies under the role's key and names the role. -/
def validateToken (apiKey token expectedTyp : Text) : Option Claims :=
  (decode apiKey expectedTyp token).filter fun claims => claims.typ = expectedTyp

/-- Accept the raw API key or an access token. -/
def verifyToken (token apiKey : Text) : Bool :=
  if constantTimeEq (utf8 token) (utf8 apiKey) then
    true
  else if token.contains '.' then
    (validateToken decode apiKey token "access".toList).isSome
  else
    false

/-- The presented tokens that are the gateway's own. -/
def gatewayCredentials (headers : HeaderMap) (query : Option Text) (apiKey : Text) : List Text :=
  (presentedTokens headers query).filter fun token => verifyToken decode token apiKey

def hasValidApiAuth (headers : HeaderMap) (query : Option Text) (apiKey : Text) : Bool :=
  (presentedTokens headers query).any fun token => verifyToken decode token apiKey

/-- The query minus each `token=` pair whose value is one of `consumed`. -/
def forwardedQuery (query : Text) (consumed : List Text) : Option Text :=
  let isConsumed (pair : Text) := (pairToken pair).any fun value => consumed.contains value
  let kept := (query.splitOn '&').filter fun pair => !pair.isEmpty && !isConsumed pair
  let kept := ['&'].intercalate kept
  if kept.isEmpty then none else some kept

/-- The headers and the query to forward. -/
def removeGatewayCredentials
    (apiKey : Text)
    (headers : HeaderMap)
    (query : Option Text) :
    HeaderMap × Option Text :=
  let consumed := gatewayCredentials decode headers query apiKey
  let bearerConsumed := (presentedBearer headers).any fun bearer => consumed.contains bearer
  let headers := if bearerConsumed then headers.erase clientCredentialHeader else headers
  (headers, query.bind fun query => forwardedQuery query consumed)

/-! ## What is forwarded -/

/-- A header value that carries a gateway token. -/
def gatewayValue (apiKey : Text) (value : HeaderValue) : Bool :=
  (bearer value).any fun token => verifyToken decode token apiKey

/-- A query pair that carries a gateway token. -/
def gatewayPair (apiKey : Text) (pair : Text) : Bool :=
  (pairToken pair).any fun token => verifyToken decode token apiKey

/-- The pairs of a query, in order. -/
def pairs (query : Option Text) : List Text :=
  query.toList.flatMap fun query => (query.splitOn '&').filter fun pair => !pair.isEmpty

/-- What a forwarded request is to be: it opens nothing at the gateway, and the values of
the credential header, of every other header and the pairs of the query are the client's
without those that carry a gateway token, unchanged and in order. -/
structure Clean
    (apiKey : Text)
    (headers : HeaderMap)
    (query : Option Text)
    (forwarded : HeaderMap × Option Text) :
    Prop where
  unauthenticated : hasValidApiAuth decode forwarded.1 forwarded.2 apiKey = false
  credentials :
    values forwarded.1 clientCredentialHeader =
      (values headers clientCredentialHeader).filter fun value => !gatewayValue decode apiKey value
  headers :
    ∀ name, name ≠ clientCredentialHeader → values forwarded.1 name = values headers name
  pairs :
    pairs forwarded.2 = (pairs query).filter fun pair => !gatewayPair decode apiKey pair

section Split

/-- The pairs of the pieces that a filter keeps are those pieces, when it drops empty ones. -/
theorem pairs_intercalate
    {kept : List Text}
    (hfree : ∀ pair ∈ kept, '&' ∉ pair)
    (hne : ∀ pair ∈ kept, pair ≠ []) :
    pairs (if (['&'].intercalate kept).isEmpty then none else some (['&'].intercalate kept)) =
      kept := by
  cases kept with
  | nil => rfl
  | cons pair rest =>
      have hnonempty : (['&'].intercalate (pair :: rest)).isEmpty = false := by
        have hpair := hne pair List.mem_cons_self
        cases rest with
        | nil => simpa [List.intercalate] using hpair
        | cons next rest => simp [List.intercalate, hpair]
      rw [if_neg (by simp [hnonempty])]
      have hsplit : (['&'].intercalate (pair :: rest)).splitOn '&' = pair :: rest :=
        List.splitOn_intercalate '&' hfree (List.cons_ne_nil _ _)
      simp only [pairs, Option.toList_some, List.flatMap_cons, List.flatMap_nil, List.append_nil,
        hsplit]
      rw [List.filter_eq_self]
      intro kept hkept
      simpa using hne kept hkept

end Split

/-- The pairs of the forwarded query: those whose value is not consumed. -/
theorem pairs_forwardedQuery
    (query : Text) (consumed : List Text) :
    pairs (forwardedQuery query consumed) =
      (pairs (some query)).filter fun pair =>
        !(pairToken pair).any fun value => consumed.contains value := by
  rw [forwardedQuery, pairs_intercalate]
  · simp only [pairs, Option.toList_some, List.flatMap_cons, List.flatMap_nil, List.append_nil,
      List.filter_filter]
    refine List.filter_congr fun pair _ => ?_
    rw [Bool.and_comm]
  · intro pair hpair
    exact not_mem_of_mem_splitOn (List.mem_of_mem_filter hpair)
  · intro pair hpair
    have hkept := List.of_mem_filter hpair
    simp only [Bool.and_eq_true, Bool.not_eq_true'] at hkept
    intro hnil
    simp [hnil] at hkept

/-- The tokens of a query are those of its pairs. -/
theorem presentedTokens_eq
    (headers : HeaderMap) (query : Option Text) :
    presentedTokens headers query =
      (presentedBearer headers).toList ++ (pairs query).filterMap pairToken := by
  rw [presentedTokens, pairs, List.filterMap_flatMap]
  congr 1
  refine List.flatMap_congr fun query _ => ?_
  rw [List.filterMap_filter]
  refine List.filterMap_congr fun pair _ => ?_
  cases pair with
  | nil => rfl
  | cons c cs => rfl

section Remove

variable (apiKey : Text) (headers : HeaderMap) (query : Option Text)

/-- A presented token is removed exactly when it is the gateway's. -/
theorem contains_gatewayCredentials
    {token : Text}
    (h : token ∈ presentedTokens headers query) :
    (gatewayCredentials decode headers query apiKey).contains token =
      verifyToken decode token apiKey := by
  rw [Bool.eq_iff_iff, List.contains_iff_mem, gatewayCredentials, List.mem_filter]
  exact and_iff_right h

theorem bearer_presented
    {value : HeaderValue} {token : Text}
    (hheader : header headers clientCredentialHeader = some value)
    (hbearer : bearer value = some token) :
    token ∈ presentedTokens headers query := by
  simp [presentedTokens, presentedBearer, hheader, hbearer]

theorem pair_presented
    {pair token : Text}
    (hpair : pair ∈ pairs query)
    (htoken : pairToken pair = some token) :
    token ∈ presentedTokens headers query := by
  rw [presentedTokens_eq]
  exact List.mem_append_right _ (List.mem_filterMap.2 ⟨pair, hpair, htoken⟩)

/-- The query keeps the pairs that carry no gateway token. -/
theorem pairs_removeGatewayCredentials :
    pairs (removeGatewayCredentials decode apiKey headers query).2 =
      (pairs query).filter fun pair => !gatewayPair decode apiKey pair := by
  cases query with
  | none => rfl
  | some query =>
      rw [removeGatewayCredentials, Option.bind_some, pairs_forwardedQuery]
      refine List.filter_congr fun pair hpair => ?_
      rw [gatewayPair]
      cases htoken : pairToken pair with
      | none => rfl
      | some token =>
          simp only [Option.any_some]
          rw [contains_gatewayCredentials _ _ _ _ (pair_presented headers _ hpair htoken)]

/-- The credential header goes exactly when its first value carries a gateway token. -/
theorem headers_removeGatewayCredentials :
    (removeGatewayCredentials decode apiKey headers query).1 =
      if (header headers clientCredentialHeader).any (gatewayValue decode apiKey) then
        headers.erase clientCredentialHeader
      else
        headers := by
  rw [removeGatewayCredentials]
  cases hheader : header headers clientCredentialHeader with
  | none => simp [presentedBearer, hheader]
  | some value =>
      cases hbearer : bearer value with
      | none => simp [presentedBearer, hheader, gatewayValue, hbearer]
      | some token =>
          have hpresented := bearer_presented headers query hheader hbearer
          simp only [presentedBearer, hheader, Option.bind_some, hbearer, Option.any_some,
            gatewayValue]
          rw [contains_gatewayCredentials _ _ _ _ hpresented]

theorem values_erase
    (name : String) :
    values (headers.erase clientCredentialHeader) name =
      if name = clientCredentialHeader then [] else values headers name := by
  rw [values, Std.ExtTreeMap.getElem?_erase]
  by_cases hname : name = clientCredentialHeader
  · simp [hname]
  · rw [if_neg (by rw [Std.LawfulEqCmp.compare_eq_iff_eq]; exact fun h => hname h.symm),
      if_neg hname]
    rfl

/-- No token of the forwarded request opens the gateway. -/
theorem unauthenticated_removeGatewayCredentials :
    hasValidApiAuth decode (removeGatewayCredentials decode apiKey headers query).1
      (removeGatewayCredentials decode apiKey headers query).2 apiKey = false := by
  rw [hasValidApiAuth, List.any_eq_false, presentedTokens_eq, pairs_removeGatewayCredentials,
    headers_removeGatewayCredentials]
  intro token htoken hvalid
  rcases List.mem_append.1 htoken with hbearer | hpair
  · split at hbearer
    · simp [presentedBearer, header, values_erase] at hbearer
    · rename_i hkept
      rw [Option.mem_toList, presentedBearer, Option.bind_eq_some_iff] at hbearer
      obtain ⟨value, hvalue, hbearer⟩ := hbearer
      simp [hvalue, gatewayValue, hbearer, hvalid] at hkept
  · obtain ⟨pair, hpair, htoken⟩ := List.mem_filterMap.1 hpair
    have hkept := List.of_mem_filter hpair
    simp [gatewayPair, htoken, hvalid] at hkept

end Remove

/-- A gateway token survives nowhere and everything else is forwarded, exactly when the
values of the credential header all carry gateway tokens or none does. -/
theorem removeGatewayCredentials_clean_iff
    (apiKey : Text)
    (headers : HeaderMap)
    (query : Option Text) :
    Clean decode apiKey headers query (removeGatewayCredentials decode apiKey headers query) ↔
      (∀ value ∈ values headers clientCredentialHeader, gatewayValue decode apiKey value = true) ∨
        ∀ value ∈ values headers clientCredentialHeader,
          gatewayValue decode apiKey value = false := by
  have hothers :
      ∀ name, name ≠ clientCredentialHeader →
        values (removeGatewayCredentials decode apiKey headers query).1 name =
          values headers name := by
    intro name hname
    rw [headers_removeGatewayCredentials]
    split
    · rw [values_erase, if_neg hname]
    · rfl
  have hclean :
      Clean decode apiKey headers query (removeGatewayCredentials decode apiKey headers query) ↔
        values (removeGatewayCredentials decode apiKey headers query).1 clientCredentialHeader =
          (values headers clientCredentialHeader).filter fun value =>
            !gatewayValue decode apiKey value :=
    ⟨fun h => h.credentials, fun h =>
      ⟨unauthenticated_removeGatewayCredentials decode apiKey headers query, h, hothers,
        pairs_removeGatewayCredentials decode apiKey headers query⟩⟩
  rw [hclean, headers_removeGatewayCredentials]
  cases hvalues : values headers clientCredentialHeader with
  | nil =>
      simp [header, hvalues]
  | cons value rest =>
      have hheader : header headers clientCredentialHeader = some value := by
        rw [header, hvalues]
        rfl
      cases hfirst : gatewayValue decode apiKey value with
      | true =>
          rw [if_pos (by simp [hheader, hfirst]), values_erase, if_pos rfl, eq_comm,
            List.filter_eq_nil_iff]
          simp [hfirst]
      | false =>
          rw [if_neg (by simp [hheader, hfirst]), hvalues, eq_comm, List.filter_eq_self]
          simp [hfirst]

/-- A decoder that accepts no token, as for an API key that signed none. -/
def noTokens : Text → Text → Text → Option Claims := fun _ _ _ => none

/-- A request with a gateway bearer and, in a second `Authorization` header, basic
credentials of a service's own. -/
def twoAuthorizations : HeaderMap :=
  (∅ : HeaderMap).insert clientCredentialHeader
    [utf8 "Bearer key".toList, utf8 "Basic dXNlcg==".toList]

/-- The service's own credentials are not forwarded. -/
theorem not_clean_twoAuthorizations :
    ¬Clean noTokens "key".toList twoAuthorizations none
      (removeGatewayCredentials noTokens "key".toList twoAuthorizations none) := by
  intro h
  exact absurd h.credentials (by decide)

end Credentials

end AgentProxy
end Vestad
end Vesta
