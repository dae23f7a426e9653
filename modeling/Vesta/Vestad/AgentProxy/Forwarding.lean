import Vesta.Lib.Json
import Vesta.Lib.Url.Parse
import Vesta.Vestad.AgentProxy.Credentials

/-!
# The path and the query that a proxied request reaches its service with

The proxy routes hand the decoded tail of the request's path to the proxy.  The proxy
takes off the segment that names a registered service, and the key that opens it, and
puts the rest and the query without the gateway's credentials after the address of the
agent.  The HTTP client parses that text as a URL again, and the socket client reads
its path and query off it.

The services and their keys are read at one time.  Authorization, the checks on the
agent's container and the headers of the upgrade are left out: they refuse a request
and do not look at what is forwarded.
-/

namespace Vesta
namespace Vestad
namespace AgentProxy

open Lib
open Lib.Url

/-- The address of a container on its bridge network. -/
structure Host where
  text : Text
  dotted : ∀ c ∈ text, c.isDigit = true ∨ c = '.'

/-- The agent that a request names: its address and port, the ports of its registered
services, and the keys that are live for a service. -/
structure Agent where
  host : Host
  port : Nat
  services : Text → Option Nat
  accepts : Text → Text → Bool

/-- The proxy routes, each with the tail of the path as the client sent it. -/
inductive Route
  | agent (tail : Text)
  | providerSetup (tail : Text)
  | personalities
deriving DecidableEq

structure Request where
  route : Route
  headers : HeaderMap
  query : Option Text

/-- The tail of a path as a handler is given it; one that decodes to no text is refused. -/
def pathParam (tail : Text) : Option Text := fromUtf8 (percentDecode tail)

/-- The first segment of a tail and the path forwarded to the service it names. -/
def splitServiceSubpath (path : Text) : Text × Text :=
  let first := path.takeWhile fun c => c ≠ '/'
  if first = [] then
    ([], ['/'])
  else
    let rest := path.drop first.length
    if rest = [] then (first, ['/']) else (first, rest)

/-- The key of a `/k/{key}/` subpath and the path forwarded after it. -/
def splitKeySubpath (subpath : Text) : Option (Text × Text) :=
  (stripPrefix "/k/".toList subpath).bind fun rest =>
    let key := rest.takeWhile fun c => c ≠ '/'
    let tail := rest.drop key.length
    let forwarded := if tail = [] then ['/'] else tail
    if key = [] then none else some (key, forwarded)

/-- The path forwarded for a keyed request, when its key opens the service. -/
def keyedForwardPath (subpath : Text) (accepts : Text → Bool) : Option Text :=
  (splitKeySubpath subpath).bind fun split =>
    if accepts split.1 then some split.2 else none

/-- The port and the path a request goes to, and whether it is a registered service's. -/
structure Target where
  port : Nat
  path : Text
  isService : Bool
deriving DecidableEq

def serviceTarget (agent : Agent) (path : Text) : Target :=
  let split := splitServiceSubpath path
  match if split.1 = [] then none else agent.services split.1 with
  | some port =>
      let keyed := keyedForwardPath split.2 (agent.accepts split.1)
      { port, path := keyed.getD split.2, isService := true }
  | none => { port := agent.port, path := '/' :: path, isService := false }

def target (agent : Agent) : Route → Option Target
  | .agent tail => (pathParam tail).map (serviceTarget agent)
  | .providerSetup tail =>
      (pathParam tail).map fun path =>
        { port := agent.port, path := "/providers/".toList ++ path, isService := false }
  | .personalities =>
      some { port := agent.port, path := "/personalities".toList, isService := false }

/-- `u8::to_ascii_lowercase`. -/
def lowercase (b : UInt8) : UInt8 := if 65 ≤ b ∧ b ≤ 90 then b + 32 else b

def isWsUpgrade (headers : HeaderMap) : Bool :=
  (header headers "upgrade").any fun value => value.map lowercase = utf8 "websocket".toList

/-- The upgrade is the agent route's; the other routes forward every request over HTTP. -/
def upgrades (request : Request) : Bool :=
  match request.route with
  | .agent _ => isWsUpgrade request.headers
  | _ => false

def authority (host : Host) (port : Nat) : Text := host.text ++ ':' :: Json.printNat port

/-- The URL the proxy dials. -/
def buildTargetUrl (scheme : Text) (host : Host) (port : Nat) (path : Text) : Text :=
  scheme ++ "://".toList ++ authority host port ++ path

section Proxy

variable (decode : Text → Text → Text → Option Claims)

/-- The path and the query that are received upstream.  The socket client takes only the
URLs that `dials` accepts, and the raw agent is not dialed. -/
def received
    (dials : Text → Bool)
    (apiKey : Text)
    (agent : Agent)
    (request : Request) :
    Option (Text × Option Text) :=
  (target agent request.route).bind fun target =>
    let query := (removeGatewayCredentials decode apiKey request.headers request.query).2
    let targetPath := withQuery target.path query
    if upgrades request then
      let url := buildTargetUrl "ws".toList agent.host target.port targetPath
      if target.isService && dials url then parseVerbatim "ws".toList url else none
    else
      parse "http".toList (buildTargetUrl "http".toList agent.host target.port targetPath)

/-! ## The client's own path and query -/

/-- The segments of the decoded tail that were matched: a registered service, with the
key that opens it. -/
def matched (agent : Agent) (path : Text) : Text :=
  let split := splitServiceSubpath path
  match if split.1 = [] then none else agent.services split.1 with
  | some _ =>
      match splitKeySubpath split.2 with
      | some (key, _) =>
          '/' :: split.1 ++ if agent.accepts split.1 key then "/k/".toList ++ key else []
      | none => '/' :: split.1
  | none => []

/-- The client's path after what was matched, as the tokens of the client's own text. -/
def clientTokens (agent : Agent) : Route → List Token
  | .agent tail =>
      let rest :=
        dropBytes (utf8 (matched agent ((pathParam tail).getD []))).length (tokens ('/' :: tail))
      if rest = [] then [.plain '/'] else rest
  | .providerSetup tail => tokens ("/providers/".toList ++ tail)
  | .personalities => tokens "/personalities".toList

/-- The pairs of the client's query that carry no gateway token. -/
def clientPairs (apiKey : Text) (query : Text) : List Text :=
  (query.splitOn '&').filter fun pair => !gatewayPair decode apiKey pair

/-- The client's query without the pairs that carry a gateway token; none when all do. -/
def clientQuery (apiKey : Text) (query : Option Text) : Option Text :=
  query.bind fun query =>
    let pairs := clientPairs decode apiKey query
    if pairs = [] then none else some (['&'].intercalate pairs)

/-- What the service is to receive: the client's own path after what was matched, and the
client's own query without the gateway's credentials. -/
def clientTarget (apiKey : Text) (agent : Agent) (request : Request) : Text × Option Text :=
  ((clientTokens agent request.route).flatMap Token.text,
    clientQuery decode apiKey request.query)

/-- The request is one that decoding and parsing again keep: over HTTP, its path survives
the parser, and its pairs are not empty and are of characters that the parser leaves; over
a socket, its path has no escape, and its pairs are not empty. -/
def Verbatim (apiKey : Text) (agent : Agent) (request : Request) : Prop :=
  let ts := clientTokens agent request.route
  let decoded := (fromUtf8 (ts.flatMap Token.bytes)).getD []
  let pairs := request.query.toList.flatMap (clientPairs decode apiKey)
  if upgrades request then
    ((∀ t ∈ ts, t.isPlain = true) ∧ ∀ c ∈ decoded, endsPath c = false) ∧
      ∀ pair ∈ pairs, pair ≠ [] ∧ ∀ c ∈ pair, c ≠ '#'
  else
    Survives ts decoded pairs.isEmpty ∧
      ∀ pair ∈ pairs, pair ≠ [] ∧ ∀ c ∈ pair, queryEncoded c = false

section Path

theorem split_first (path : Text) :
    ∃ rest, path = path.takeWhile (fun c => c ≠ '/') ++ rest ∧
      path.drop (path.takeWhile fun c => c ≠ '/').length = rest ∧
        (rest = [] ∨ rest.head? = some '/') := by
  have hsplit := List.takeWhile_append_dropWhile (p := fun c => decide (c ≠ '/')) (l := path)
  have hdrop : ((path.takeWhile fun c => c ≠ '/') ++ path.dropWhile fun c => c ≠ '/').drop
      (path.takeWhile fun c => c ≠ '/').length = path.dropWhile fun c => c ≠ '/' :=
    List.drop_left
  rw [hsplit] at hdrop
  refine ⟨path.dropWhile fun c => c ≠ '/', hsplit.symm, hdrop, ?_⟩
  · cases hrest : path.dropWhile fun c => c ≠ '/' with
    | nil => exact Or.inl rfl
    | cons c rest =>
        have hc := List.head?_dropWhile_not (fun c => decide (c ≠ '/')) path
        rw [hrest] at hc
        simp at hc
        exact Or.inr (by rw [List.head?_cons, hc])

/-- A subpath of a key is the key and the path that is forwarded after it. -/
theorem splitKeySubpath_cases
    {subpath key forwarded : Text}
    (h : splitKeySubpath subpath = some (key, forwarded)) :
    ∃ rest, subpath = "/k/".toList ++ key ++ rest ∧ (rest = [] ∨ rest.head? = some '/') ∧
      forwarded = if rest = [] then ['/'] else rest := by
  obtain ⟨text, htext, hsplit⟩ := Option.bind_eq_some_iff.1 h
  obtain ⟨rest, hrest, hdrop, hhead⟩ := split_first text
  simp only at hsplit
  split at hsplit
  · cases hsplit
  · rw [hdrop] at hsplit
    cases hsplit
    refine ⟨rest, ?_, hhead, rfl⟩
    rw [List.append_assoc, ← hrest]
    exact append_of_stripPrefix htext

/-- A path is what was matched and a rest, and the rest is what is forwarded. -/
theorem serviceTarget_path
    (agent : Agent) (path : Text) :
    ∃ rest, '/' :: path = matched agent path ++ rest ∧
      (rest = [] ∨ rest.head? = some '/') ∧
        (serviceTarget agent path).path = if rest = [] then ['/'] else rest := by
  obtain ⟨rest, hpath, hdrop, hrest⟩ := split_first path
  obtain ⟨first, hfirst⟩ : ∃ first, path.takeWhile (fun c => c ≠ '/') = first := ⟨_, rfl⟩
  rw [hfirst] at hpath hdrop
  by_cases hempty : first = []
  · have hsplit : splitServiceSubpath path = ([], ['/']) := by
      rw [splitServiceSubpath]
      simp only [hfirst, if_pos hempty]
    refine ⟨'/' :: path, ?_, Or.inr rfl, ?_⟩
    · rw [matched, hsplit]
      rfl
    · rw [serviceTarget, hsplit]
      rfl
  · have hsplit :
        splitServiceSubpath path = (first, if rest = [] then ['/'] else rest) := by
      rw [splitServiceSubpath]
      simp only [hfirst, if_neg hempty, hdrop]
      split <;> rfl
    have hwhole : '/' :: path = '/' :: first ++ rest := by rw [List.cons_append, ← hpath]
    rw [serviceTarget, matched, hsplit]
    simp only [if_neg hempty]
    cases agent.services first with
    | none => exact ⟨'/' :: path, rfl, Or.inr rfl, rfl⟩
    | some port =>
        simp only
        cases hkey : splitKeySubpath (if rest = [] then ['/'] else rest) with
        | none => exact ⟨rest, hwhole, hrest, by rw [keyedForwardPath, hkey]; rfl⟩
        | some split =>
            obtain ⟨key, forwarded⟩ := split
            cases hkeyed : agent.accepts first key with
            | false =>
                refine ⟨rest, by simpa [hkeyed] using hwhole, hrest, ?_⟩
                rw [keyedForwardPath, hkey, Option.bind_some, hkeyed]
                rfl
            | true =>
                obtain ⟨rest', hsub, hrest', hforwarded⟩ := splitKeySubpath_cases hkey
                have hne : rest ≠ [] := by
                  rintro rfl
                  have hlength := congrArg List.length hsub
                  simp at hlength
                rw [if_neg hne] at hsub
                refine ⟨rest', ?_, hrest', ?_⟩
                · rw [hwhole, hsub]
                  simp [hkeyed]
                · rw [keyedForwardPath, hkey, Option.bind_some, hkeyed]
                  exact hforwarded

/-- The path that is forwarded starts with a slash and has the bytes of the client's. -/
theorem target_path
    {agent : Agent} {route : Route} {dest : Target}
    (h : target agent route = some dest) :
    dest.path.head? = some '/' ∧
      utf8 dest.path = (clientTokens agent route).flatMap Token.bytes := by
  have hplain : ∀ lead text : Text, (∀ c ∈ lead, c ≠ '%') →
      (tokens (lead ++ text)).flatMap Token.bytes = utf8 lead ++ percentDecode text := by
    intro lead text hlead
    rw [tokens_append hlead, List.flatMap_append, List.flatMap_map]
    rfl
  cases route with
  | personalities =>
      cases h
      have hfixed : utf8 "/personalities".toList =
          (tokens "/personalities".toList).flatMap Token.bytes := by
        decide
      exact ⟨rfl, hfixed⟩
  | providerSetup tail =>
      obtain ⟨path, hpath, rfl⟩ := Option.map_eq_some_iff.1 h
      refine ⟨rfl, ?_⟩
      rw [clientTokens, hplain _ _ (forall_mem_of_all (by decide)), utf8_append,
        utf8_of_fromUtf8 hpath]
  | agent tail =>
      obtain ⟨path, hpath, rfl⟩ := Option.map_eq_some_iff.1 h
      obtain ⟨rest, hwhole, hrest, hforwarded⟩ := serviceTarget_path agent path
      have hbytes : (tokens ('/' :: tail)).flatMap Token.bytes =
          utf8 (matched agent path) ++ utf8 rest := by
        rw [← utf8_append, ← hwhole, ← List.singleton_append,
          hplain _ _ (forall_mem_of_all (by decide)), ← utf8_of_fromUtf8 hpath, ← utf8_append,
          List.singleton_append]
      have hascii : ∀ b ∈ (utf8 rest).head?, b.toNat < 128 := by
        rcases hrest with rfl | hhead
        · simp [utf8]
        · obtain ⟨rest, rfl⟩ := List.head?_eq_some_iff.1 hhead
          rintro b ⟨⟩
          decide
      have hdrop := bytes_dropBytes hbytes hascii
      have hempty : dropBytes (utf8 (matched agent path)).length (tokens ('/' :: tail)) = [] ↔
          rest = [] := by
        rw [← utf8_eq_nil_iff, ← hdrop]
        constructor
        · intro hnil
          rw [hnil]
          rfl
        · intro hnil
          by_contra hne
          obtain ⟨t, ts, hts⟩ := List.exists_cons_of_ne_nil hne
          rw [hts, List.flatMap_cons, List.append_eq_nil_iff] at hnil
          exact absurd (congrArg List.length hnil.1) (Nat.ne_of_gt t.length_bytes_pos)
      have htokens : clientTokens agent (.agent tail) =
          if rest = [] then [.plain '/'] else
            dropBytes (utf8 (matched agent path)).length (tokens ('/' :: tail)) := by
        rw [clientTokens, hpath, Option.getD_some]
        simp only [hempty]
      rw [hforwarded, htokens]
      by_cases hnil : rest = []
      · simp only [if_pos hnil]
        exact ⟨rfl, by decide⟩
      · simp only [if_neg hnil]
        exact ⟨hrest.resolve_left hnil, hdrop.symm⟩

end Path

section Query

/-- The pairs joined to a query, and none when the query would be empty. -/
def joined (pairs : List Text) : Option Text :=
  let query := ['&'].intercalate pairs
  if query.isEmpty then none else some query

/-- A query that a parser is given, and gives back with the characters that it keeps, is
the client's exactly when no pair is empty and all of its characters are kept. -/
theorem joined_eq_iff
    {pairs : List Text} {parsed : Text → Text} {kept : Char → Prop}
    (hfree : ∀ pair ∈ pairs, '&' ∉ pair)
    (hamp : kept '&')
    (hkeeps : ∀ text, (∀ c ∈ text, kept c) → parsed text = text)
    (hkept : ∀ text, ∀ c ∈ parsed text, kept c) :
    (joined (pairs.filter fun pair => !pair.isEmpty)).map parsed =
        (if pairs = [] then none else some (['&'].intercalate pairs)) ↔
      ∀ pair ∈ pairs, pair ≠ [] ∧ ∀ c ∈ pair, kept c := by
  constructor
  · intro heq
    by_cases hempty : pairs = []
    · simp [hempty]
    · rw [if_neg hempty, Option.map_eq_some_iff] at heq
      obtain ⟨query, hquery, hparsed⟩ := heq
      rw [joined] at hquery
      split at hquery
      · cases hquery
      · rename_i hne
        cases hquery
        have hchars : ∀ pair ∈ pairs, ∀ c ∈ pair, kept c := fun pair hpair c hc =>
          hkept _ c (hparsed ▸ mem_intercalate_of_mem hpair hc)
        have hsame : ['&'].intercalate (pairs.filter fun pair => !pair.isEmpty) =
            ['&'].intercalate pairs := by
          rw [← hparsed, hkeeps]
          intro c hc
          rcases eq_or_mem_of_mem_intercalate hc with rfl | ⟨pair, hpair, hc⟩
          · exact hamp
          · exact hchars pair (List.mem_of_mem_filter hpair) c hc
        have hfilter : pairs.filter (fun pair => !pair.isEmpty) = pairs := by
          have hkeptne : pairs.filter (fun pair => !pair.isEmpty) ≠ [] := by
            intro hnil
            simp [hnil] at hne
          have hleft := List.splitOn_intercalate '&'
            (fun pair hpair => hfree pair (List.mem_of_mem_filter hpair)) hkeptne
          rw [hsame, List.splitOn_intercalate '&' hfree hempty] at hleft
          exact hleft.symm
        refine fun pair hpair => ⟨?_, hchars pair hpair⟩
        simpa using List.filter_eq_self.1 hfilter pair hpair
  · intro hpairs
    have hfilter : pairs.filter (fun pair => !pair.isEmpty) = pairs :=
      List.filter_eq_self.2 fun pair hpair => by simpa using (hpairs pair hpair).1
    rw [hfilter, joined]
    cases pairs with
    | nil => rfl
    | cons pair rest =>
        have hne : (['&'].intercalate (pair :: rest)).isEmpty = false := by
          rw [List.isEmpty_eq_false_iff]
          obtain ⟨c, tail, hc⟩ :=
            List.exists_cons_of_ne_nil (hpairs pair List.mem_cons_self).1
          exact List.ne_nil_of_mem
            (mem_intercalate_of_mem List.mem_cons_self (hc ▸ List.mem_cons_self))
        simp only [hne, Bool.false_eq_true, if_false, Option.map_some, List.cons_ne_nil]
        rw [hkeeps]
        intro c hc
        rcases eq_or_mem_of_mem_intercalate hc with rfl | ⟨pair, hpair, hc⟩
        · exact hamp
        · exact (hpairs pair hpair).2 c hc

/-- The query that is forwarded. -/
theorem removeGatewayCredentials_query
    (apiKey : Text) (headers : HeaderMap) (query : Text) :
    (removeGatewayCredentials decode apiKey headers (some query)).2 =
      joined ((clientPairs decode apiKey query).filter fun pair => !pair.isEmpty) := by
  have hfilter :
      ((query.splitOn '&').filter fun pair => !pair.isEmpty &&
          !(pairToken pair).any fun value =>
            (gatewayCredentials decode headers (some query) apiKey).contains value) =
        (clientPairs decode apiKey query).filter fun pair => !pair.isEmpty := by
    rw [clientPairs, List.filter_filter]
    refine List.filter_congr fun pair hpair => ?_
    cases pair with
    | nil => rfl
    | cons c cs =>
        have hpairs : c :: cs ∈ pairs (some query) := by
          simp only [pairs, Option.toList_some, List.flatMap_cons, List.flatMap_nil,
            List.append_nil]
          exact List.mem_filter.2 ⟨hpair, rfl⟩
        rw [gatewayPair]
        cases htoken : pairToken (c :: cs) with
        | none => rfl
        | some token =>
            simp only [Option.any_some]
            rw [contains_gatewayCredentials _ _ _ _ (pair_presented headers _ hpairs htoken)]
  rw [removeGatewayCredentials, Option.bind_some, forwardedQuery, joined, hfilter]

/-- The query that a parser gives is the client's exactly when no pair is empty and all of
its characters are kept. -/
theorem query_eq_iff
    (apiKey : Text) (headers : HeaderMap) (query : Option Text)
    (parsed : Text → Text) (kept : Char → Prop)
    (hamp : kept '&')
    (hkeeps : ∀ text, (∀ c ∈ text, kept c) → parsed text = text)
    (hkept : ∀ text, ∀ c ∈ parsed text, kept c) :
    (removeGatewayCredentials decode apiKey headers query).2.map parsed =
        clientQuery decode apiKey query ↔
      ∀ pair ∈ query.toList.flatMap (clientPairs decode apiKey),
        pair ≠ [] ∧ ∀ c ∈ pair, kept c := by
  cases query with
  | none => simp [removeGatewayCredentials, clientQuery]
  | some query =>
      rw [removeGatewayCredentials_query, clientQuery, Option.bind_some,
        joined_eq_iff _ hamp hkeeps hkept, Option.toList_some, List.flatMap_singleton]
      exact fun pair hpair => not_mem_of_mem_splitOn (List.mem_of_mem_filter hpair)

end Query

section Characters

theorem authority_plain
    (host : Host) (port : Nat) :
    ∀ c ∈ authority host port, isControlOrSpace c = false ∧ endsAuthority c = false := by
  have hdigit : ∀ c : Char, c.isDigit = true →
      isControlOrSpace c = false ∧ endsAuthority c = false := by
    intro c hc
    have hle : (48 : Nat) ≤ c.toNat := (Char.isDigit_iff_toNat.1 hc).1
    refine ⟨decide_eq_false (by omega), ?_⟩
    have hne : ∀ d : Char, d.isDigit = false → c ≠ d := by
      rintro d hd rfl
      rw [hd] at hc
      cases hc
    simp [endsAuthority, endsPath, hne '/' (by decide), hne (Char.ofNat 92) (by decide),
      hne '?' (by decide), hne '#' (by decide)]
  intro c hc
  rcases List.mem_append.1 hc with hc | hc
  · rcases host.dotted c hc with hc | rfl
    · exact hdigit c hc
    · decide
  · rcases List.mem_cons.1 hc with rfl | hc
    · decide
    · exact hdigit c (Nat.isDigit_of_mem_toDigits (by decide) (by decide) hc)

end Characters

/-- The path and the query that are received are the client's own, after what was matched
and without the gateway's credentials, exactly for the requests that decoding and parsing
again keep. -/
theorem received_eq_iff
    {dials : Text → Bool} {apiKey : Text} {agent : Agent} {request : Request}
    {upstream : Text × Option Text}
    (h : received decode dials apiKey agent request = some upstream) :
    upstream = clientTarget decode apiKey agent request ↔
      Verbatim decode apiKey agent request := by
  obtain ⟨dest, hdest, hreceived⟩ := Option.bind_eq_some_iff.1 h
  obtain ⟨hhead, hbytes⟩ := target_path hdest
  have hdecoded : (fromUtf8 ((clientTokens agent request.route).flatMap Token.bytes)).getD [] =
      dest.path := by
    rw [← hbytes, fromUtf8_utf8, Option.getD_some]
  have hauthority := authority_plain agent.host dest.port
  simp only at hreceived
  rw [clientTarget, Verbatim]
  simp only [hdecoded]
  split at hreceived
  · rename_i hupgrades
    have hquery := query_eq_iff decode apiKey request.headers request.query
      (fun query => query.takeWhile fun c => c ≠ '#') (fun c => c ≠ '#') (by decide)
      (fun text hall => List.takeWhile_eq_self_iff.2 fun c hc => decide_eq_true (hall c hc))
      (fun text c hc => by simpa using List.mem_takeWhile_imp hc)
    split at hreceived
    · rw [buildTargetUrl, parseVerbatim_eq hhead hauthority, Option.some_inj] at hreceived
      rw [if_pos hupgrades, ← hquery, ← hreceived]
      exact splitTarget_eq_iff hbytes
    · cases hreceived
  · rename_i hupgrades
    have hquery := query_eq_iff decode apiKey request.headers request.query
      parsedQuery (fun c => queryEncoded c = false) (by decide)
      parsedQuery_of_forall not_encoded_of_mem_parsedQuery
    obtain ⟨query, hforwarded⟩ :
        ∃ query, (removeGatewayCredentials decode apiKey request.headers request.query).2 = query :=
      ⟨_, rfl⟩
    rw [hforwarded] at hquery hreceived
    have hparse :
        upstream = ((clientTokens agent request.route).flatMap Token.text,
            clientQuery decode apiKey request.query) ↔
          Survives (clientTokens agent request.route) dest.path query.isNone ∧
            query.map parsedQuery = clientQuery decode apiKey request.query := by
      rw [← Option.some_inj, ← hreceived]
      exact parse_eq_iff hbytes hhead (forall_mem_of_all (by decide)) hauthority
    rw [if_neg hupgrades, hparse, ← hquery]
    have hlast : query.map parsedQuery = clientQuery decode apiKey request.query →
        query.isNone = (request.query.toList.flatMap (clientPairs decode apiKey)).isEmpty := by
      intro heq
      have hnone := congrArg Option.isNone heq
      rw [Option.isNone_map] at hnone
      rw [hnone]
      cases request.query with
      | none => rfl
      | some query =>
          rw [clientQuery, Option.bind_some, Option.toList_some, List.flatMap_singleton]
          cases clientPairs decode apiKey query <;> rfl
    constructor
    · rintro ⟨hsurvives, heq⟩
      exact ⟨hlast heq ▸ hsurvives, heq⟩
    · rintro ⟨hsurvives, heq⟩
      exact ⟨hlast heq ▸ hsurvives, heq⟩

theorem pathParam_of_percentDecode
    {tail path : Text}
    (h : percentDecode tail = utf8 path) :
    pathParam tail = some path := by
  rw [pathParam, h, fromUtf8_utf8]

/-- An agent with one registered service. -/
def dashAgent : Agent where
  host := { text := "172.18.0.2".toList, dotted := forall_mem_of_all (by decide) }
  port := 8000
  services := fun name => if name = "dash".toList then some 4000 else none
  accepts := fun _ _ => false

def get (tail : String) : Request where
  route := .agent tail.toList
  headers := ∅
  query := none

theorem received_eq_iff_space :
    Verbatim noTokens "key".toList dashAgent (get "dash/a%20b") := by
  have hparam : pathParam "dash/a%20b".toList = some "dash/a b".toList :=
    pathParam_of_percentDecode (by decide)
  have hreceived :
      received noTokens (fun _ => true) "key".toList dashAgent (get "dash/a%20b") =
        some ("/a%20b".toList, none) := by
    simp only [received, get, target, hparam, Option.map_some, Option.bind_some]
    decide
  refine (received_eq_iff noTokens hreceived).1 ?_
  simp only [clientTarget, clientTokens, get, hparam]
  decide

/-- An escaped slash and an escaped question mark reach the service as a separator and as
the start of a query. -/
theorem not_verbatim_escapes :
    received noTokens (fun _ => true) "key".toList dashAgent (get "dash/a%2Fb%3Fc") =
        some ("/a/b".toList, some "c".toList) ∧
      clientTarget noTokens "key".toList dashAgent (get "dash/a%2Fb%3Fc") =
        ("/a%2Fb%3Fc".toList, none) := by
  have hparam : pathParam "dash/a%2Fb%3Fc".toList = some "dash/a/b?c".toList :=
    pathParam_of_percentDecode (by decide)
  constructor
  · simp only [received, get, target, hparam, Option.map_some, Option.bind_some]
    decide
  · simp only [clientTarget, clientTokens, get, hparam]
    decide

end Proxy

end AgentProxy
end Vestad
end Vesta
