import Mathlib.Data.List.Infix
import Vesta.Lib.Erase
import Vesta.Lib.Text

/-!
# Rewriting requests for the prompt cache

Requests to the model pass through a proxy that makes them hit the provider's prompt cache:
the random billing token at the front is made constant, every breakpoint is taken out and
one is put on the last system block, and a provider that is known to cache is pinned.

The breakpoints are found by the name of their key, in whatever object it stands.
-/

namespace Vesta
namespace Agent
namespace OpenRouterCache

open Lib

abbrev Json := Lib.Value

/-- The members of a request, in order. -/
abbrev Body := Dict String Json

/-! ## The billing token -/

def billingHeader : Text := "x-anthropic-billing-header".toList

def cchKey : Text := "cch=".toList

def stableToken : Text := "stable".toList

/-- Whether `cch=[^;]*;` matches at the start of a text; the key has no semicolon itself. -/
def matchesCch (text : Text) : Bool := cchKey.isPrefixOf text && text.contains ';'

mutual

/-- `re.sub` puts the constant token into every match. -/
def subCch : Text → Text
  | [] => []
  | c :: rest =>
      if matchesCch (c :: rest) then cchKey ++ stableToken ++ ';' :: skipCch rest
      else c :: subCch rest

/-- The rest of a match, up to its semicolon, is left out. -/
def skipCch : Text → Text
  | [] => []
  | c :: rest => if c = ';' then subCch rest else skipCch rest

end

/-- Two texts that are the same but for the values of their tokens. -/
inductive Varied : Text → Text → Prop
  | nil : Varied [] []
  | cons (c : Char) {text other : Text} (rest : Varied text other) :
      Varied (c :: text) (c :: other)
  | token
      {value value' text other : Text}
      (hvalue : ';' ∉ value)
      (hvalue' : ';' ∉ value')
      (rest : Varied text other) :
      Varied (cchKey ++ value ++ ';' :: text) (cchKey ++ value' ++ ';' :: other)

theorem Varied.take
    {text other : Text}
    (h : Varied text other) :
    ∀ n ≤ 4, text.take n = other.take n := by
  induction h with
  | nil => exact fun _ _ => rfl
  | cons c _ ih =>
      intro n hn
      cases n with
      | zero => rfl
      | succ n => rw [List.take_succ_cons, List.take_succ_cons, ih n (by omega)]
  | token _ _ _ _ =>
      intro n hn
      rw [List.append_assoc, List.append_assoc, List.take_append_of_le_length hn,
        List.take_append_of_le_length hn]

theorem Varied.mem_semicolon
    {text other : Text}
    (h : Varied text other) :
    ';' ∈ text ↔ ';' ∈ other := by
  induction h with
  | nil => rfl
  | cons c _ ih => simp [ih]
  | token _ _ _ _ => simp

theorem isPrefixOf_take (text : Text) :
    cchKey.isPrefixOf text = cchKey.isPrefixOf (text.take 4) := by
  rw [Bool.eq_iff_iff, List.isPrefixOf_iff_prefix, List.isPrefixOf_iff_prefix]
  exact (List.prefix_take_iff.trans (and_iff_left le_rfl)).symm

theorem Varied.matchesCch_eq
    {text other : Text}
    (h : Varied text other) :
    matchesCch text = matchesCch other := by
  rw [matchesCch, matchesCch, isPrefixOf_take text, isPrefixOf_take other, h.take 4 le_rfl]
  congr 1
  rw [Bool.eq_iff_iff, List.contains_iff_mem, List.contains_iff_mem]
  exact h.mem_semicolon

theorem skipCch_append
    {value : Text}
    (h : ';' ∉ value)
    (text : Text) :
    skipCch (value ++ ';' :: text) = subCch text := by
  induction value with
  | nil => rw [List.nil_append, skipCch, if_pos rfl]
  | cons c value ih =>
      obtain ⟨hc, hvalue⟩ := not_or.1 (List.mem_cons.not.1 h)
      rw [List.cons_append, skipCch, if_neg (Ne.symm hc)]
      exact ih hvalue

/-- A token is replaced whatever its value. -/
theorem subCch_token
    {value : Text}
    (h : ';' ∉ value)
    (text : Text) :
    subCch (cchKey ++ value ++ ';' :: text) = cchKey ++ stableToken ++ ';' :: subCch text := by
  have htail : ';' ∉ ['c', 'h', '='] ++ value := by simpa using h
  have hmatch : matchesCch ('c' :: (['c', 'h', '='] ++ value ++ ';' :: text)) = true := by
    simp [matchesCch, cchKey]
  change subCch ('c' :: (['c', 'h', '='] ++ value ++ ';' :: text)) = _
  rw [subCch, if_pos hmatch, skipCch_append htail]

/-- The rewritten text does not depend on the values of the tokens. -/
theorem Varied.subCch_eq
    {text other : Text}
    (h : Varied text other) :
    subCch text = subCch other ∧ skipCch text = skipCch other := by
  induction h with
  | nil => exact ⟨rfl, rfl⟩
  | cons c rest ih =>
      constructor
      · rw [subCch, subCch, (rest.cons c).matchesCch_eq, ih.1, ih.2]
      · rw [skipCch, skipCch, ih.1, ih.2]
  | token hvalue hvalue' rest ih =>
      constructor
      · rw [subCch_token hvalue, subCch_token hvalue', ih.1]
      · have hkey : ';' ∉ cchKey := by decide
        rw [skipCch_append (by simp [hkey, hvalue]), skipCch_append (by simp [hkey, hvalue']), ih.1]

/-- Only the values of tokens are rewritten. -/
theorem varied_subCch (text : Text) : Varied text (subCch text) := by
  induction hlength : text.length using Nat.strong_induction_on generalizing text with
  | h n ih =>
      subst hlength
      cases text with
      | nil => exact .nil
      | cons c rest =>
          by_cases hmatch : matchesCch (c :: rest) = true
          · obtain ⟨hfront, hmem⟩ := Bool.and_eq_true_iff.1 hmatch
            obtain ⟨tail, htail⟩ := List.isPrefixOf_iff_prefix.1 hfront
            have hmem : ';' ∈ cchKey ++ tail := htail ▸ List.contains_iff_mem.1 hmem
            have hkey : ';' ∉ cchKey := by decide
            obtain ⟨value, post, rfl, hvalue⟩ :=
              List.eq_append_cons_of_mem ((List.mem_append.1 hmem).resolve_left hkey)
            rw [← htail, ← List.append_assoc, subCch_token hvalue]
            have hshorter : post.length < (c :: rest).length := by
              rw [← htail]
              simp
              omega
            exact .token hvalue (by decide) (ih _ hshorter post rfl)
          · rw [subCch, if_neg hmatch]
            exact .cons c (ih _ (by simp) rest rfl)

/-- Varying the tokens leaves the header in front. -/
theorem Varied.header
    {text other : Text}
    (h : Varied text other)
    (hheader : billingHeader <+: text) :
    billingHeader <+: other := by
  -- no token begins in the header: a `c` in it is followed by another letter than `c`
  have hclear : ∀ p ∈ billingHeader.tails,
      p = [] ∨ p.take 2 ≠ cchKey.take (min 2 p.length) := by
    decide
  have hfront : ∀ p ∈ billingHeader.tails, p <+: text → p <+: other := by
    clear hheader
    induction h with
    | nil => exact fun _ _ h => h
    | cons c rest ih =>
        intro p hp hpre
        cases p with
        | nil => exact List.nil_prefix
        | cons first p =>
            obtain ⟨rfl, hrest⟩ := List.cons_prefix_cons.1 hpre
            have hsuffix := (List.suffix_cons first p).trans ((List.mem_tails _ _).1 hp)
            exact List.cons_prefix_cons.2 ⟨rfl, ih p ((List.mem_tails _ _).2 hsuffix) hrest⟩
    | token _ _ _ _ =>
        intro p hp hpre
        rcases hclear p hp with rfl | hne
        · exact List.nil_prefix
        · have hlength : min 2 p.length ≤ cchKey.length := by
            have : cchKey.length = 4 := rfl
            omega
          rw [List.prefix_iff_eq_take.1 hpre, List.take_take, List.append_assoc,
            List.take_append_of_le_length (by simpa using hlength)] at hne
          exact absurd (by simp) hne
  exact hfront billingHeader ((List.mem_tails _ _).2 List.suffix_rfl) hheader

/-! ## The blocks of the system prompt -/

def cacheControl : String := "cache_control"

/-- The text of a block, with the token of a billing header replaced. -/
def neutralizeText : Json → Json
  | .str text =>
      if billingHeader <+: text.toList then .str (String.ofList (subCch text.toList))
      else .str text
  | value => value

/-- `_neutralize_cch`, of one block. -/
def neutralizeBlock : Json → Json
  | .obj entries =>
      .obj (entries.map fun entry =>
        (entry.1, if entry.1 = "text" then neutralizeText entry.2 else entry.2))
  | block => block

/-- `_strip_cache_control` -/
def stripCacheControl : Json → Json := Value.erase cacheControl

def cacheTtl : String := "1h"

def breakpoint : Json := .obj [("type", .str "ephemeral"), ("ttl", .str cacheTtl)]

def markBlock : Json → Json
  | .obj entries => .obj (Entries.put cacheControl breakpoint entries)
  | block => block

/-- The one breakpoint is put on the last block. -/
def markLast : List Json → List Json
  | [] => []
  | [last] => [markBlock last]
  | block :: next :: blocks => block :: markLast (next :: blocks)

def rewriteSystem (system : List Json) : List Json :=
  markLast ((system.map neutralizeBlock).map stripCacheControl)

/-! ## The request -/

/-- Whether a loop over a value runs: over the characters of a string and the keys of an object
too, which it leaves as they are. -/
def iterable : Json → Bool
  | .arr _ => true
  | .obj _ => true
  | .str _ => true
  | _ => false

def rewriteTools : Json → Json
  | .arr tools => .arr (tools.map stripCacheControl)
  | tools => tools

/-- What becomes of a member of the request, by its name. -/
def rewriteField (name : String) (value : Json) : Json :=
  if name = "system" then
    match value with
    | .arr system => .arr (rewriteSystem system)
    | value => value
  else if name = "tools" then rewriteTools value
  else if name = "messages" then stripCacheControl value
  else value

def pin (provider : String) : Json :=
  .obj [("order", .arr [.str provider]), ("allow_fallbacks", .bool true)]

def rewrite (parsed : Body) (provider sessionId : String) : Body :=
  ((parsed.modify rewriteField).put "provider" (pin provider)).put "session_id" (.str sessionId)

/-- The request as it is sent on; nothing when the loop over the tools raises. -/
def transformRequest
    (parsed : Body)
    (provider : Option String)
    (sessionId : String) :
    Option Body :=
  match provider.filter (· ≠ ""), parsed.get "system" with
  | some provider, some (.arr (_ :: _)) =>
      if (parsed.get "tools").all iterable then some (rewrite parsed provider sessionId) else none
  | _, _ => some parsed

/-! ## Requests that differ in the billing token -/

/-- Two members of a block that are the same but for the token of a billing header. -/
inductive SameEntry : String × Json → String × Json → Prop
  | same (entry : String × Json) : SameEntry entry entry
  | billing
      {text other : String}
      (hheader : billingHeader <+: text.toList)
      (hvaried : Varied text.toList other.toList) :
      SameEntry ("text", .str text) ("text", .str other)

inductive SameBlock : Json → Json → Prop
  | same (block : Json) : SameBlock block block
  | entries
      {entries others : List (String × Json)}
      (h : List.Forall₂ SameEntry entries others) :
      SameBlock (.obj entries) (.obj others)

/-- A request that is another one but for the billing token. -/
def SameRequest (body other : Body) : Prop :=
  ∃ system system', body.get "system" = some (.arr system) ∧
    List.Forall₂ SameBlock system system' ∧ other = body.put "system" (.arr system')

theorem neutralizeBlock_eq_of_same
    {block other : Json}
    (h : SameBlock block other) :
    neutralizeBlock block = neutralizeBlock other := by
  cases h with
  | same => rfl
  | entries h =>
      rw [neutralizeBlock, neutralizeBlock]
      congr 1
      induction h with
      | nil => rfl
      | cons hentry _ ih =>
          rw [List.map_cons, List.map_cons, ih]
          cases hentry with
          | same => rfl
          | billing hheader hvaried =>
              simp only [if_true, neutralizeText, if_pos hheader,
                if_pos (hvaried.header hheader), hvaried.subCch_eq.1]

/-- Neutralizing changes no more than the token of a billing header. -/
theorem sameBlock_neutralizeBlock (block : Json) : SameBlock block (neutralizeBlock block) := by
  cases block with
  | null | bool | nat | number | str | arr => exact .same _
  | obj entries =>
      rw [neutralizeBlock]
      refine .entries (List.forall₂_map_right_iff.2 (List.forall₂_same.2 ?_))
      rintro ⟨name, value⟩ -
      dsimp only
      split
      · rename_i hname
        subst hname
        cases value with
        | null | bool | nat | number | arr | obj => exact .same _
        | str text =>
            rw [neutralizeText]
            split
            · rename_i hheader
              refine .billing hheader ?_
              rw [String.toList_ofList]
              exact varied_subCch text.toList
            · exact .same _
      · exact .same _

theorem neutralizeBlock_neutralizeBlock (block : Json) :
    neutralizeBlock (neutralizeBlock block) = neutralizeBlock block :=
  (neutralizeBlock_eq_of_same (sameBlock_neutralizeBlock block)).symm

/-! ## Rewriting twice -/

theorem neutralizeBlock_strip (block : Json) :
    neutralizeBlock (stripCacheControl block) = stripCacheControl (neutralizeBlock block) := by
  have htext : ∀ value : Json,
      neutralizeText (stripCacheControl value) = stripCacheControl (neutralizeText value) := by
    intro value
    cases value with
    | null | bool | nat | number | arr | obj => rfl
    | str text =>
        change neutralizeText (.str text) = _
        rw [neutralizeText]
        split <;> rfl
  cases block with
  | null | bool | nat | number | str | arr => rfl
  | obj entries =>
      simp only [stripCacheControl, Value.erase, Value.eraseEntries_eq, neutralizeBlock,
        List.map_map, List.filter_map]
      refine congrArg Value.obj (List.map_congr_left fun entry _ => ?_)
      by_cases hname : entry.1 = "text"
      · simp only [Function.comp_apply, if_pos hname]
        exact congrArg _ (htext entry.2)
      · simp only [Function.comp_apply, if_neg hname]

/-- What becomes of a block of the system prompt before the last one is marked. -/
def cleanBlock (block : Json) : Json := stripCacheControl (neutralizeBlock block)

theorem cleanBlock_cleanBlock (block : Json) :
    cleanBlock (cleanBlock block) = cleanBlock block := by
  rw [cleanBlock, cleanBlock, neutralizeBlock_strip, neutralizeBlock_neutralizeBlock,
    stripCacheControl, Value.erase_erase]

theorem strip_markBlock (block : Json) :
    stripCacheControl (markBlock block) = stripCacheControl block := by
  cases block with
  | null | bool | nat | number | str | arr => rfl
  | obj entries =>
      simp only [stripCacheControl, markBlock, Value.erase, Value.eraseEntries_put]

theorem cleanBlock_markBlock (block : Json) : cleanBlock (markBlock block) = cleanBlock block := by
  rw [cleanBlock, ← neutralizeBlock_strip, strip_markBlock, neutralizeBlock_strip, cleanBlock]

theorem rewriteSystem_eq (system : List Json) :
    rewriteSystem system = markLast (system.map cleanBlock) := by
  rw [rewriteSystem, List.map_map]
  rfl

theorem markLast_concat (blocks : List Json) (last : Json) :
    markLast (blocks ++ [last]) = blocks ++ [markBlock last] := by
  induction blocks with
  | nil => rfl
  | cons block blocks ih =>
      cases blocks with
      | nil => rfl
      | cons next blocks =>
          rw [List.cons_append, List.cons_append, markLast, ← List.cons_append, ih]
          rfl

theorem map_cleanBlock_markLast (blocks : List Json) :
    (markLast blocks).map cleanBlock = blocks.map cleanBlock := by
  rcases List.eq_nil_or_concat blocks with rfl | ⟨front, last, rfl⟩
  · rfl
  · rw [List.concat_eq_append, markLast_concat, List.map_append, List.map_append]
    simp only [List.map_cons, List.map_nil, cleanBlock_markBlock]

theorem rewriteSystem_rewriteSystem (system : List Json) :
    rewriteSystem (rewriteSystem system) = rewriteSystem system := by
  have hclean : cleanBlock ∘ cleanBlock = cleanBlock := funext cleanBlock_cleanBlock
  rw [rewriteSystem_eq (rewriteSystem system), rewriteSystem_eq system, map_cleanBlock_markLast,
    List.map_map, hclean]

theorem rewriteField_rewriteField (name : String) (value : Json) :
    rewriteField name (rewriteField name value) = rewriteField name value := by
  have hstrip : stripCacheControl ∘ stripCacheControl = stripCacheControl :=
    funext (Value.erase_erase cacheControl)
  unfold rewriteField
  split
  · cases value with
    | arr system => simp only [rewriteSystem_rewriteSystem]
    | null | bool | nat | number | str | obj => rfl
  · split
    · cases value with
      | arr tools => simp only [rewriteTools, List.map_map, hstrip]
      | null | bool | nat | number | str | obj => rfl
    · split
      · exact Value.erase_erase cacheControl value
      · rfl

theorem get_rewrite (parsed : Body) (provider sessionId name : String) :
    (rewrite parsed provider sessionId).get name =
      if name = "session_id" then some (.str sessionId)
      else if name = "provider" then some (pin provider)
      else (parsed.get name).map (rewriteField name) := by
  rw [rewrite, Dict.get_put, Dict.get_put, Dict.get_modify]

/-- The fields that are rewritten in place. -/
theorem get_rewrite_of_mem
    {parsed : Body} {provider sessionId name : String}
    (h : name ∈ ["system", "tools", "messages"]) :
    (rewrite parsed provider sessionId).get name = (parsed.get name).map (rewriteField name) := by
  rw [get_rewrite, if_neg, if_neg]
  · rintro rfl
    exact absurd h (by decide)
  · rintro rfl
    exact absurd h (by decide)

theorem get_rewrite_of_not_mem
    {parsed : Body} {provider sessionId name : String}
    (h : name ∉ ["system", "tools", "messages", "provider", "session_id"]) :
    (rewrite parsed provider sessionId).get name = parsed.get name := by
  simp only [List.mem_cons, List.not_mem_nil, or_false, not_or] at h
  obtain ⟨hsystem, htools, hmessages, hprovider, hsession⟩ := h
  have hsame : rewriteField name = id := by
    funext value
    simp only [rewriteField, if_neg hsystem, if_neg htools, if_neg hmessages, id_eq]
  rw [get_rewrite, if_neg hsession, if_neg hprovider, hsame, Option.map_id]
  rfl

theorem rewrite_rewrite (parsed : Body) (provider sessionId : String) :
    rewrite (rewrite parsed provider sessionId) provider sessionId =
      rewrite parsed provider sessionId := by
  have hfields : (rewrite parsed provider sessionId).modify rewriteField =
      rewrite parsed provider sessionId := by
    apply Dict.modify_eq_self
    intro name value hvalue
    rw [get_rewrite] at hvalue
    split at hvalue
    · rename_i hname
      subst hname
      rfl
    · split at hvalue
      · rename_i hname
        subst hname
        rfl
      · obtain ⟨old, -, rfl⟩ := Option.map_eq_some_iff.1 hvalue
        exact rewriteField_rewriteField name old
  have hprovider : (rewrite parsed provider sessionId).get "provider" = some (pin provider) := by
    rw [get_rewrite, if_neg (by decide), if_pos rfl]
  have hsession : (rewrite parsed provider sessionId).get "session_id" =
      some (.str sessionId) := by
    rw [get_rewrite, if_pos rfl]
  rw [rewrite, hfields, Dict.put_eq_self hprovider, Dict.put_eq_self hsession]

/-- A provider is known, and the system prompt is a list of blocks, not empty. -/
def Applies (provider : Option String) (body : Body) : Prop :=
  (∃ name, provider = some name ∧ name ≠ "") ∧
    ∃ system, body.get "system" = some (.arr system) ∧ system ≠ []

theorem transformRequest_of_not_applies
    {body : Body} {provider : Option String} {sessionId : String}
    (h : ¬ Applies provider body) :
    transformRequest body provider sessionId = some body := by
  rw [transformRequest]
  split
  · rename_i name block system hname hsystem
    obtain ⟨hprovider, hne⟩ := Option.filter_eq_some_iff.1 hname
    exact absurd ⟨⟨name, hprovider, by simpa using hne⟩, _, hsystem, List.cons_ne_nil _ _⟩ h
  · rfl

theorem transformRequest_of_applies
    {body : Body} {provider : Option String} {sessionId name : String}
    (h : Applies provider body)
    (hprovider : provider = some name)
    (htools : (body.get "tools").all iterable = true) :
    transformRequest body provider sessionId = some (rewrite body name sessionId) := by
  obtain ⟨⟨name', hname', hne⟩, system, hsystem, hcons⟩ := h
  rw [hprovider] at hname'
  obtain rfl : name = name' := Option.some.inj hname'
  obtain ⟨block, blocks, rfl⟩ := List.exists_cons_of_ne_nil hcons
  have hfilter : provider.filter (· ≠ "") = some name := by
    rw [hprovider]
    simp [hne]
  rw [transformRequest, hfilter, hsystem]
  dsimp only
  rw [if_pos htools]

theorem applies_rewrite
    {body : Body} {provider : Option String} {sessionId name : String}
    (h : Applies provider body) :
    Applies provider (rewrite body name sessionId) := by
  obtain ⟨hprovider, system, hsystem, hne⟩ := h
  refine ⟨hprovider, rewriteSystem system, ?_, ?_⟩
  · rw [get_rewrite_of_mem (by simp), hsystem]
    rfl
  · obtain ⟨front, last, rfl⟩ := (List.eq_nil_or_concat system).resolve_left hne
    rw [rewriteSystem_eq, List.concat_eq_append, List.map_append, List.map_singleton,
      markLast_concat]
    simp

theorem iterable_rewrite
    {body : Body} {name sessionId : String}
    (h : (body.get "tools").all iterable = true) :
    ((rewrite body name sessionId).get "tools").all iterable = true := by
  rw [get_rewrite_of_mem (by simp)]
  cases htools : body.get "tools" with
  | none => rfl
  | some tools =>
      rw [htools] at h
      cases tools with
      | arr | obj | str => rfl
      | null | bool | nat | number => exact h

/-! ## What the rewriting does -/

def IsObject (value : Json) : Prop := ∃ entries, value = .obj entries

/-- A request to the messages endpoint. -/
structure WellFormed (body : Body) : Prop where
  system : ∀ value, body.get "system" = some value → (∃ text, value = .str text) ∨
    ∃ blocks, value = .arr blocks ∧ ∀ block ∈ blocks, IsObject block
  tools : ∀ value, body.get "tools" = some value →
    ∃ tools, value = .arr tools ∧ ∀ tool ∈ tools, IsObject tool
  messages : ∃ messages, body.get "messages" = some (.arr messages) ∧
    ∀ message ∈ messages, IsObject message

/-- The members of a message or a block that hold blocks; others hold data. -/
def holdsBlocks (name : String) : Bool := name = "content" || name = "source"

def markersIn (body : Body) (name : String) : Nat :=
  (body.get name).elim 0 (Value.count holdsBlocks cacheControl)

/-- How many system blocks, tools and blocks of messages have a breakpoint. -/
def markers (body : Body) : Nat :=
  markersIn body "system" + markersIn body "tools" + markersIn body "messages"

/-- The request that is sent on in place of another. -/
structure Cached (provider : Option String) (sessionId : String) (body out : Body) : Prop where
  one_marker : markers out = 1
  marked : ∃ blocks entries, out.get "system" = some (.arr (blocks ++ [.obj entries])) ∧
    entries.lookup cacheControl = some breakpoint
  system : ∃ blocks neutral kept, body.get "system" = some (.arr blocks) ∧
    List.Forall₂ SameBlock blocks neutral ∧
    Value.Preserved cacheControl (.arr neutral) (.arr kept) ∧
    out.get "system" = some (.arr (markLast kept))
  prompt : ∀ name ∈ ["tools", "messages"],
    Option.Rel (Value.Preserved cacheControl) (body.get name) (out.get name)
  others : ∀ name ∉ ["system", "tools", "messages", "provider", "session_id"],
    out.get name = body.get name
  pinned : ∀ name ∈ provider, out.get "provider" = some (pin name)
  session : out.get "session_id" = some (.str sessionId)

theorem WellFormed.iterable
    {body : Body}
    (h : WellFormed body) :
    (body.get "tools").all iterable = true := by
  cases htools : body.get "tools" with
  | none => rfl
  | some value =>
      obtain ⟨tools, rfl, -⟩ := h.tools value htools
      rfl

theorem WellFormed.get_rewrite_eq
    {body : Body} {provider sessionId name : String} {value : Json}
    (h : WellFormed body)
    (hname : name ∈ ["tools", "messages"])
    (hvalue : body.get name = some value) :
    (rewrite body provider sessionId).get name = some (stripCacheControl value) := by
  rw [get_rewrite_of_mem (List.mem_cons_of_mem _ hname), hvalue, Option.map_some]
  rcases List.mem_pair.1 hname with rfl | rfl
  · obtain ⟨tools, rfl, -⟩ := h.tools value hvalue
    rw [stripCacheControl, Value.erase, Value.eraseItems_eq_map]
    rfl
  · rfl

theorem forall₂_sameBlock_neutralizeBlock (blocks : List Json) :
    List.Forall₂ SameBlock blocks (blocks.map neutralizeBlock) :=
  List.forall₂_map_right_iff.2
    (List.forall₂_same.2 fun block _ => sameBlock_neutralizeBlock block)

theorem preserved_map_strip (blocks : List Json) :
    Value.Preserved cacheControl (.arr blocks) (.arr (blocks.map stripCacheControl)) := by
  have herase := Value.preserved_erase cacheControl (.arr blocks)
  rwa [Value.erase, Value.eraseItems_eq_map] at herase

/-- One breakpoint is left in a system prompt that ends in a block. -/
theorem countItems_rewriteSystem
    {front : List Json} {entries : List (String × Json)} :
    Value.countItems holdsBlocks cacheControl (rewriteSystem (front ++ [.obj entries])) = 1 := by
  have hclean (block : Json) : Value.count holdsBlocks cacheControl (cleanBlock block) = 0 :=
    Value.count_erase cacheControl (neutralizeBlock block)
  have hfront : Value.countItems holdsBlocks cacheControl (front.map cleanBlock) = 0 :=
    Value.countItems_eq_zero_iff.2 (List.forall_mem_map.2 fun block _ => hclean block)
  have hlast := hclean (.obj entries)
  rw [rewriteSystem_eq, List.map_append, List.map_singleton, markLast_concat,
    Value.countItems_append, hfront, Nat.zero_add]
  exact Value.countEntries_put hlast (by decide)

/-- The system prompt of a request that is rewritten ends in a block. -/
theorem WellFormed.exists_last
    {body : Body} {provider : Option String}
    (h : WellFormed body)
    (happlies : Applies provider body) :
    ∃ front entries, body.get "system" = some (.arr (front ++ [.obj entries])) := by
  obtain ⟨-, system, hsystem, hne⟩ := happlies
  obtain ⟨front, last, rfl⟩ := (List.eq_nil_or_concat system).resolve_left hne
  rw [List.concat_eq_append] at hsystem
  rcases h.system _ hsystem with ⟨text, htext⟩ | ⟨blocks, hblocks, hobjects⟩
  · cases htext
  · cases hblocks
    obtain ⟨entries, rfl⟩ := hobjects last (by simp)
    exact ⟨front, entries, hsystem⟩

theorem get_system_rewrite
    {body : Body} {name sessionId : String} {system : List Json}
    (h : body.get "system" = some (.arr system)) :
    (rewrite body name sessionId).get "system" = some (.arr (rewriteSystem system)) := by
  rw [get_rewrite_of_mem (by simp), h]
  rfl

/-- No breakpoint is left among the tools and the messages. -/
theorem WellFormed.markersIn_rewrite
    {body : Body} {name sessionId other : String}
    (h : WellFormed body)
    (hother : other ∈ ["tools", "messages"]) :
    markersIn (rewrite body name sessionId) other = 0 := by
  rw [markersIn]
  cases hvalue : body.get other with
  | none =>
      rw [get_rewrite_of_mem (List.mem_cons_of_mem _ hother), hvalue]
      rfl
  | some value =>
      rw [h.get_rewrite_eq hother hvalue]
      exact Value.count_erase cacheControl value

theorem cached_rewrite
    {body : Body} {provider : Option String} {sessionId name : String}
    (hbody : WellFormed body)
    (happlies : Applies provider body)
    (hprovider : provider = some name) :
    Cached provider sessionId body (rewrite body name sessionId) := by
  obtain ⟨front, entries, hsystem⟩ := hbody.exists_last happlies
  have hout := @get_system_rewrite body name sessionId _ hsystem
  constructor
  case one_marker =>
    have hone : markersIn (rewrite body name sessionId) "system" = 1 := by
      rw [markersIn, hout]
      exact countItems_rewriteSystem
    rw [markers, hone, hbody.markersIn_rewrite (by simp), hbody.markersIn_rewrite (by simp)]
  case marked =>
    obtain ⟨cleaned, hcleaned⟩ : IsObject (cleanBlock (.obj entries)) := ⟨_, rfl⟩
    refine ⟨front.map cleanBlock, Entries.put cacheControl breakpoint cleaned, ?_, ?_⟩
    · rw [hout, rewriteSystem_eq, List.map_append, List.map_singleton, markLast_concat, hcleaned]
      rfl
    · rw [Entries.lookup_put, if_pos rfl]
  case system =>
    exact ⟨_, _, _, hsystem, forall₂_sameBlock_neutralizeBlock _, preserved_map_strip _, hout⟩
  case prompt =>
    intro other hother
    cases hvalue : body.get other with
    | none =>
        rw [get_rewrite_of_mem (List.mem_cons_of_mem _ hother), hvalue]
        exact .none
    | some value =>
        rw [hbody.get_rewrite_eq hother hvalue]
        exact .some (Value.preserved_erase cacheControl value)
  case others => exact fun other hother => get_rewrite_of_not_mem hother
  case pinned =>
    rintro other hother
    rw [hprovider] at hother
    obtain rfl : name = other := Option.some.inj hother
    rw [get_rewrite, if_neg (by decide), if_pos rfl]
  case session => rw [get_rewrite, if_pos rfl]

theorem transformRequest_of_same
    {body other : Body} {provider : Option String} {sessionId name : String}
    (happlies : Applies provider body)
    (hprovider : provider = some name)
    (htools : (body.get "tools").all iterable = true)
    (hsame : SameRequest body other) :
    transformRequest other provider sessionId = some (rewrite body name sessionId) := by
  obtain ⟨system, system', hsystem, hblocks, rfl⟩ := hsame
  obtain ⟨hname, system'', hsystem'', hne⟩ := happlies
  rw [hsystem] at hsystem''
  cases hsystem''
  have happlies' : Applies provider (body.put "system" (.arr system')) := by
    refine ⟨hname, system', Dict.get_put_self _ _ _, ?_⟩
    rintro rfl
    cases hblocks
    exact hne rfl
  have htools' : ((body.put "system" (.arr system')).get "tools").all iterable = true := by
    rwa [Dict.get_put_of_ne (by decide)]
  rw [transformRequest_of_applies happlies' hprovider htools']
  have hneutral : system.map neutralizeBlock = system'.map neutralizeBlock := by
    clear * - hblocks
    induction hblocks with
    | nil => rfl
    | cons hblock _ ih =>
        rw [List.map_cons, List.map_cons, ih, neutralizeBlock_eq_of_same hblock]
  have hfields : (body.put "system" (.arr system')).modify rewriteField =
      body.modify rewriteField := by
    apply Dict.ext_get
    · have hkey : "system" ∈ body.keys := by
        by_contra hnot
        rw [Dict.get_eq_none_iff.2 hnot] at hsystem
        cases hsystem
      rw [Dict.keys_modify, Dict.keys_modify, Dict.keys_put, if_pos hkey]
    · intro field
      rw [Dict.get_modify, Dict.get_modify, Dict.get_put]
      split
      · rename_i heq
        rw [heq, hsystem]
        simp only [Option.map_some, rewriteField, if_true, rewriteSystem, hneutral]
      · rfl
  rw [rewrite, rewrite, hfields]

/-- Rewriting a request once more changes nothing.  Where it applies, one breakpoint is left, on
the last block of the system prompt, the billing token does not matter, and the rest of the
request is as it was. -/
theorem transformRequest_caches
    (body : Body)
    (provider : Option String)
    (sessionId : String)
    (hbody : WellFormed body) :
    ∃ out, transformRequest body provider sessionId = some out ∧
      transformRequest out provider sessionId = some out ∧
      (¬ Applies provider body → out = body) ∧
      (Applies provider body → Cached provider sessionId body out ∧
        ∀ other, SameRequest body other →
          transformRequest other provider sessionId = some out) := by
  by_cases happlies : Applies provider body
  · obtain ⟨⟨name, hprovider, -⟩, -⟩ := id happlies
    refine ⟨rewrite body name sessionId,
      transformRequest_of_applies happlies hprovider hbody.iterable, ?_,
      fun hnot => absurd happlies hnot, fun _ => ⟨cached_rewrite hbody happlies hprovider,
        fun other => transformRequest_of_same happlies hprovider hbody.iterable⟩⟩
    rw [transformRequest_of_applies (applies_rewrite happlies) hprovider
      (iterable_rewrite hbody.iterable), rewrite_rewrite]
  · have hsame : transformRequest body provider sessionId = some body :=
      transformRequest_of_not_applies happlies
    exact ⟨body, hsame, hsame, fun _ => rfl, fun h => absurd h happlies⟩

/-! ### A prompt that is a text, and user data of the same name -/

def marked : String × Json := (cacheControl, .obj [("type", .str "ephemeral")])

/-- The system prompt is a text, and a tool and a message are marked. -/
def textPrompt : Body where
  entries :=
    [("model", .str "m"),
      ("system", .str "You are a helpful assistant."),
      ("tools", .arr [.obj [("name", .str "Bash"), marked]]),
      ("messages", .arr [.obj [("role", .str "user"),
        ("content", .arr [.obj [("type", .str "text"), ("text", .str "hi"), marked]])]])]

/-- A tool is called with an input that has a member of this name. -/
def toolCall : Body where
  entries :=
    [("model", .str "m"),
      ("system", .arr [.obj [("type", .str "text"),
        ("text", .str "x-anthropic-billing-header: cch=9af3e1;")]]),
      ("messages", .arr [.obj [("role", .str "assistant"),
        ("content", .arr [.obj [("type", .str "tool_use"), ("name", .str "fetch"),
          ("input", .obj [("url", .str "u"), (cacheControl, .str "no-store")])]])]])]

/-- Where the input of the tool is. -/
def inputPlace : List Value.Step :=
  [.index 0, .key "content", .index 0, .key "input"]

def inputOf (body : Body) : Option Json := (body.get "messages").bind (·.part inputPlace)

theorem isObject_of_mem_singleton
    {entries : List (String × Json)} {value : Json}
    (h : value ∈ [Lib.Value.obj entries]) :
    IsObject value :=
  ⟨entries, List.mem_singleton.1 h⟩

theorem textPrompt_wellFormed : WellFormed textPrompt := by
  constructor
  case system =>
    intro value hvalue
    cases hvalue
    exact .inl ⟨_, rfl⟩
  case tools =>
    intro value hvalue
    cases hvalue
    exact ⟨_, rfl, fun _ => isObject_of_mem_singleton⟩
  case messages => exact ⟨_, rfl, fun _ => isObject_of_mem_singleton⟩

theorem toolCall_wellFormed : WellFormed toolCall := by
  constructor
  case system =>
    intro value hvalue
    cases hvalue
    exact .inr ⟨_, rfl, fun _ => isObject_of_mem_singleton⟩
  case tools =>
    intro value hvalue
    cases hvalue
  case messages => exact ⟨_, rfl, fun _ => isObject_of_mem_singleton⟩

/-- A text as system prompt gets no breakpoint and the others stay; an input loses a member. -/
theorem textPrompt_keeps_markers :
    (WellFormed textPrompt ∧ transformRequest textPrompt (some "Alibaba") "s" = some textPrompt ∧
      markers textPrompt = 2) ∧
    WellFormed toolCall ∧
    inputOf toolCall = some (.obj [("url", .str "u"), (cacheControl, .str "no-store")]) ∧
    (transformRequest toolCall (some "Alibaba") "s").bind inputOf =
      some (.obj [("url", .str "u")]) :=
  ⟨⟨textPrompt_wellFormed, rfl, by decide +kernel⟩, toolCall_wellFormed, rfl, rfl⟩

/-- The call is sent on with one breakpoint. -/
theorem transformRequest_caches_toolCall :
    ∃ out, transformRequest toolCall (some "Alibaba") "s" = some out ∧
      transformRequest out (some "Alibaba") "s" = some out ∧ markers out = 1 := by
  obtain ⟨out, hout, hagain, -, hcached⟩ := transformRequest_caches toolCall (some "Alibaba") "s"
    toolCall_wellFormed
  exact ⟨out, hout, hagain, (hcached ⟨⟨_, rfl, by decide⟩, _, rfl, by simp⟩).1.one_marker⟩

end OpenRouterCache
end Agent
end Vesta
