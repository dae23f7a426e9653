import Mathlib.Data.List.Infix
import Vesta.Agent.Intake
import Vesta.Lib.Dict

/-!
# Interrupt rules and the fields they read

A rule of the user tests fields of a notification.  A field is a key of the notification or
an alias, which stands for the fields of several sources: `sender` for whoever sent it, and
`text` for what it says.  The rule editor offers the fields of past notifications with their
values, so an offered pair should make a rule that matches.

What `str.lower` and the regular expressions do is up to the language; a rule only relies on
their being functions.
-/

namespace Vesta
namespace Agent
namespace InterruptPolicy

open Lib

def identityFields : List Text :=
  ["sender".toList, "contact_name".toList, "handle".toList, "from".toList, "author".toList,
   "sender_address".toList]

def bodyFields : List Text :=
  ["body".toList, "message".toList, "content".toList, "subject".toList, "preview".toList]

def textAlias : Text := "text".toList

/-- The aliases, each with the fields it stands for. -/
def fieldAliases : List (Text × List Text) :=
  [("sender".toList, identityFields), (textAlias, bodyFields)]

/-- `str.lower`, and whether a pattern compiles and is found in a text, ignoring case. -/
structure Strings where
  lower : Text → Text
  compiles : Text → Bool
  search : Text → Text → Bool

inductive Op
  | contains
  | regex
deriving DecidableEq

variable (py : Strings)

/-- One condition of a rule, as the validators let it pass. -/
structure FieldPredicate where
  field : Text
  op : Op := .contains
  value : Text
  negate : Bool := false
  field_not_blank : strip field ≠ []
  value_compiles : op = .regex → py.compiles value = true

inductive ValueError
  | blankField
  | invalidRegex (value : Text)
deriving DecidableEq

/-- The validators of a predicate. -/
def FieldPredicate.validate
    (field : Text) (op : Op) (value : Text) (negate : Bool) :
    Except ValueError (FieldPredicate py) :=
  if hfield : strip field = [] then
    .error .blankField
  else if hvalue : op = .regex → py.compiles value = true then
    .ok ⟨field, op, value, negate, hfield, hvalue⟩
  else
    .error (.invalidRegex value)

/-- A rule; core notifications cannot be its target. -/
structure NotificationInterruptRule where
  source : Option Text := none
  type : Option Text := none
  predicates : List (FieldPredicate py) := []
  action : Disposition
  source_not_core : ∀ value ∈ source, py.lower (strip value) ≠ coreSource

/-! ## Reading a field -/

/-- Python's `str` of a value, and no microseconds. -/
def coerce : Value → Option Text
  | .none => none
  | .bool true => some "True".toList
  | .bool false => some "False".toList
  | .int n => some (decimal n)
  | .str text => some text
  | .datetime isoformat => some isoformat
  | .float text => some text
  | .emptyList => some "[]".toList
  | .other text => some text

attribute [grind =] coerce

/-- The declared fields that a rule can target. -/
def declared (notif : Notification) : List (Text × Value) :=
  [("source".toList, .str notif.source), ("type".toList, .str notif.type),
   ("body".toList, notif.body.elim .none .str), ("timestamp".toList, .datetime notif.timestamp)]

def fieldRaw (notif : Notification) (field : Text) : Value :=
  match (declared notif).lookup field with
  | some value => value
  | none => (notif.extra.lookup field).getD .none

/-- The values of a field: one for a key, and every one that is there for an alias. -/
def fieldValues (notif : Notification) (field : Text) : List Text :=
  ((fieldAliases.lookup field).getD [field]).filterMap fun field => coerce (fieldRaw notif field)

/-- Whether one value satisfies a predicate, its negation apart. -/
def FieldPredicate.hit (predicate : FieldPredicate py) (value : Text) : Bool :=
  match predicate.op with
  | .contains => decide (py.lower predicate.value <:+: py.lower value)
  | .regex => py.search predicate.value value

def predicateMatches (predicate : FieldPredicate py) (notif : Notification) : Bool :=
  (fieldValues notif predicate.field).any (predicate.hit py) != predicate.negate

/-- `_matches` -/
def ruleMatches (rule : NotificationInterruptRule py) (notif : Notification) : Bool :=
  rule.source.all (fun source => py.lower source = py.lower notif.source) &&
    rule.type.all (fun type => py.lower type = py.lower notif.type) &&
      rule.predicates.all fun predicate => predicateMatches py predicate notif

/-! ## Offering fields -/

def facetExclude : List Text := identityFields ++ bodyFields ++ ["file_path".toList]

def facetValueMaxlen : Nat := 80

def isScalar : Value → Bool
  | .none => false
  | .emptyList => false
  | .other _ => false
  | _ => true

/-- The fields that are offered, with their values. -/
def notifFacetFields (notif : Notification) : List (Text × Text) :=
  notif.extra.filterMap fun (key, raw) =>
    if facetExclude.contains key || !isScalar raw then
      none
    else
      ((coerce raw).filter fun value =>
        !value.isEmpty && decide (value.length ≤ facetValueMaxlen)).map fun value => (key, value)

/-- The one value of the sender. -/
def notifSender (notif : Notification) : Option Text := (fieldValues notif "sender".toList).head?

/-- The field that the element's body is taken from, and the text it shows. -/
def bodyField (notif : Notification) : Option (Text × Text) :=
  match notif.body with
  | some body => some ("body".toList, strip body)
  | none => notif.contentField

/-! ## Offered pairs -/

section Matching

variable {py : Strings} {notif : Notification}

theorem coerce_eq_none_iff {value : Value} : coerce value = none ↔ value = .none := by
  cases value with
  | bool b => cases b <;> simp [coerce]
  | none | int | str | datetime | float | emptyList | other => simp [coerce]

/-- An extra field is read as it is. -/
theorem fieldRaw_of_mem_extra
    {field : Text} {raw : Value}
    (h : (field, raw) ∈ notif.extra) :
    fieldRaw notif field = raw := by
  have hfresh := notif.extra_fresh field (List.mem_map_of_mem h)
  have hdeclared : (declared notif).lookup field = none := by
    apply Entries.lookup_eq_none_iff.2
    intro hmem
    apply hfresh
    simp only [declared, List.map_cons, List.map_nil, List.mem_cons, List.not_mem_nil,
      or_false] at hmem
    rcases hmem with rfl | rfl | rfl | rfl <;> decide
  have hextra : notif.extra.lookup field = some raw :=
    Entries.lookup_of_mem notif.extra_nodup h
  rw [fieldRaw, hdeclared, hextra]
  rfl

theorem mem_notifFacetFields {field value : Text} :
    (field, value) ∈ notifFacetFields notif ↔
      ∃ raw, (field, raw) ∈ notif.extra ∧ field ∉ facetExclude ∧ isScalar raw = true ∧
        coerce raw = some value ∧ value ≠ [] ∧ value.length ≤ facetValueMaxlen := by
  have hfits (value : Text) :
      (!value.isEmpty && decide (value.length ≤ facetValueMaxlen)) = true ↔
        value ≠ [] ∧ value.length ≤ facetValueMaxlen := by
    simp
  rw [notifFacetFields, List.mem_filterMap]
  constructor
  · rintro ⟨⟨key, raw⟩, hmem, hsome⟩
    dsimp only at hsome
    split at hsome
    · cases hsome
    · rename_i hoffered
      obtain ⟨coerced, hcoerced, hpair⟩ := Option.map_eq_some_iff.1 hsome
      obtain ⟨hcoerced, hfit⟩ := Option.filter_eq_some_iff.1 hcoerced
      cases hpair
      simp only [Bool.or_eq_true, List.contains_iff_mem, Bool.not_eq_true', not_or,
        Bool.not_eq_false] at hoffered
      exact ⟨raw, hmem, hoffered.1, hoffered.2, hcoerced, (hfits _).1 hfit⟩
  · rintro ⟨raw, hmem, hexclude, hscalar, hcoerced, hfit⟩
    refine ⟨(field, raw), hmem, ?_⟩
    have hoffered : ¬ (facetExclude.contains field || !isScalar raw) = true := by
      simp only [Bool.or_eq_true, List.contains_iff_mem, Bool.not_eq_true', not_or,
        Bool.not_eq_false]
      exact ⟨hexclude, hscalar⟩
    dsimp only
    rw [if_neg hoffered, hcoerced, Option.filter_some, if_pos ((hfits value).2 hfit),
      Option.map_some]

/-- What is offered under a key is what a rule reads there. -/
theorem mem_fieldValues_of_facet
    {field value : Text}
    (h : (field, value) ∈ notifFacetFields notif)
    (htext : field ≠ textAlias) :
    value ∈ fieldValues notif field := by
  obtain ⟨raw, hmem, hexclude, -, hvalue, -⟩ := mem_notifFacetFields.1 h
  have hsender : field ≠ "sender".toList := by
    rintro rfl
    exact hexclude (by decide)
  have halias : fieldAliases.lookup field = none := by
    apply Entries.lookup_eq_none_iff.2
    simp only [fieldAliases, List.map_cons, List.map_nil, List.mem_cons, List.not_mem_nil,
      or_false, not_or]
    exact ⟨hsender, htext⟩
  rw [fieldValues, halias, Option.getD_none]
  exact List.mem_filterMap.2 ⟨field, List.mem_singleton_self field,
    by rw [fieldRaw_of_mem_extra hmem, hvalue]⟩

theorem predicateMatches_of_mem
    {predicate : FieldPredicate py}
    (hop : predicate.op = .contains)
    (hnegate : predicate.negate = false)
    (h : predicate.value ∈ fieldValues notif predicate.field) :
    predicateMatches py predicate notif = true := by
  have hhit : predicate.hit py predicate.value = true := by
    rw [FieldPredicate.hit, hop]
    exact decide_eq_true List.infix_rfl
  have hany : (fieldValues notif predicate.field).any (predicate.hit py) = true :=
    List.any_eq_true.2 ⟨_, h, hhit⟩
  rw [predicateMatches, hany, hnegate]
  rfl

/-- A rule whose conditions are offered pairs matches. -/
theorem ruleMatches_of_facets
    {rule : NotificationInterruptRule py}
    (hsource : ∀ source ∈ rule.source, py.lower source = py.lower notif.source)
    (htype : ∀ type ∈ rule.type, py.lower type = py.lower notif.type)
    (hpredicates : ∀ predicate ∈ rule.predicates,
      predicate.op = .contains ∧ predicate.negate = false ∧ predicate.field ≠ textAlias ∧
        (predicate.field, predicate.value) ∈ notifFacetFields notif) :
    ruleMatches py rule notif = true := by
  rw [ruleMatches, Bool.and_eq_true_iff, Bool.and_eq_true_iff]
  refine ⟨⟨?_, ?_⟩, ?_⟩
  · exact (Option.all_eq_true _ _).2 fun source hmem => decide_eq_true (hsource source hmem)
  · exact (Option.all_eq_true _ _).2 fun type hmem => decide_eq_true (htype type hmem)
  · apply List.all_eq_true.2
    intro predicate hmem
    obtain ⟨hop, hnegate, htext, hoffered⟩ := hpredicates predicate hmem
    exact predicateMatches_of_mem hop hnegate (mem_fieldValues_of_facet hoffered htext)

/-- An offered pair passes the validators unless its field is blank. -/
theorem validate_facet
    {field value : Text}
    (h : strip field ≠ []) :
    ∃ predicate, FieldPredicate.validate py field .contains value false = .ok predicate ∧
      predicate.field = field ∧ predicate.op = .contains ∧ predicate.value = value ∧
      predicate.negate = false := by
  rw [FieldPredicate.validate, dif_neg h, dif_pos (by rintro ⟨⟩)]
  exact ⟨_, rfl, rfl, rfl, rfl, rfl⟩

/-! ## The alias of the text -/

theorem fieldValues_textAlias (notif : Notification) :
    fieldValues notif textAlias =
      bodyFields.filterMap fun field => coerce (fieldRaw notif field) := by
  rw [fieldValues]
  congr 1

/-- A rule on the text tests every field that may hold it. -/
theorem predicateMatches_textAlias
    {predicate : FieldPredicate py}
    (h : predicate.field = textAlias) :
    predicateMatches py predicate notif = true ↔
      ((∃ field ∈ bodyFields, ∃ value, coerce (fieldRaw notif field) = some value ∧
        predicate.hit py value = true) ↔ predicate.negate = false) := by
  have hany : (fieldValues notif predicate.field).any (predicate.hit py) = true ↔
      ∃ field ∈ bodyFields, ∃ value, coerce (fieldRaw notif field) = some value ∧
        predicate.hit py value = true := by
    rw [h, fieldValues_textAlias, List.any_eq_true]
    constructor
    · rintro ⟨value, hvalue, hhit⟩
      obtain ⟨field, hfield, hcoerced⟩ := List.mem_filterMap.1 hvalue
      exact ⟨field, hfield, value, hcoerced, hhit⟩
    · rintro ⟨field, hfield, value, hcoerced, hhit⟩
      exact ⟨value, List.mem_filterMap.2 ⟨field, hfield, hcoerced⟩, hhit⟩
  rw [← hany, predicateMatches]
  cases (fieldValues notif predicate.field).any (predicate.hit py) <;>
    cases predicate.negate <;> simp

/-- The text that is shown is that of its field. -/
theorem coerce_bodyField
    {field shown : Text}
    (h : bodyField notif = some (field, shown)) :
    ∃ raw, coerce (fieldRaw notif field) = some raw ∧ strip raw = shown ∧
      (field ∈ bodyFields ∨ field = textAlias) := by
  rw [bodyField] at h
  cases hbody : notif.body with
  | some body =>
      rw [hbody] at h
      cases h
      have hraw : fieldRaw notif "body".toList = notif.body.elim .none .str := rfl
      exact ⟨body, by rw [hraw, hbody]; rfl, rfl, .inl (by decide)⟩
  | none =>
      rw [hbody] at h
      obtain ⟨key, hkey, hshown⟩ := List.exists_of_findSome?_eq_some h
      have hread : fieldRaw notif key = (notif.modelDump.lookup key).getD .none ∧
          (key ∈ bodyFields ∨ key = textAlias) := by
        simp only [contentFields, List.mem_cons, List.not_mem_nil, or_false] at hkey
        rcases hkey with rfl | rfl | rfl
        · exact ⟨rfl, .inl (by decide)⟩
        · exact ⟨rfl, .inr rfl⟩
        · exact ⟨rfl, .inl (by decide)⟩
      split at hshown
      · rename_i text hlookup
        split at hshown
        · cases hshown
        · cases hshown
          exact ⟨text, by rw [hread.1, hlookup]; rfl, rfl, hread.2⟩
      · cases hshown

/-- Of distinct keys, one alone has a value if and only if the others have none. -/
theorem filterMap_eq_singleton_iff
    {α β : Type}
    {f : α → Option β} {keys : List α} {key : α} {value : β}
    (hnodup : keys.Nodup)
    (hkey : key ∈ keys)
    (hvalue : f key = some value) :
    keys.filterMap f = [value] ↔ ∀ other ∈ keys, other ≠ key → f other = none := by
  obtain ⟨front, back, rfl⟩ := List.append_of_mem hkey
  obtain ⟨hfront, hback⟩ : key ∉ front ∧ key ∉ back := by
    have hmiddle := List.nodup_middle.1 hnodup
    simpa using (List.nodup_cons.1 hmiddle).1
  have hsplit : (front ++ key :: back).filterMap f = [value] ↔
      front.filterMap f = [] ∧ back.filterMap f = [] := by
    rw [List.filterMap_append, List.filterMap_cons, hvalue]
    constructor
    · intro h
      have hlength := congrArg List.length h
      simp only [List.length_append, List.length_cons, List.length_nil] at hlength
      exact ⟨List.length_eq_zero_iff.1 (by omega), List.length_eq_zero_iff.1 (by omega)⟩
    · rintro ⟨hnil, hnil'⟩
      rw [hnil, hnil', List.nil_append]
  rw [hsplit, List.filterMap_eq_nil_iff, List.filterMap_eq_nil_iff]
  constructor
  · rintro ⟨hnone, hnone'⟩ other hother hne
    rcases List.mem_append.1 hother with hmem | hmem
    · exact hnone other hmem
    · exact hnone' other ((List.mem_cons.1 hmem).resolve_left hne)
  · intro h
    constructor
    · intro other hother
      exact h other (List.mem_append_left _ hother) fun heq => hfront (heq ▸ hother)
    · intro other hother
      exact h other (List.mem_append_right _ (List.mem_cons_of_mem _ hother))
        fun heq => hback (heq ▸ hother)

/-- The field that supplies the shown text is tested, and alone if no other one is there. -/
theorem fieldValues_textAlias_of_shown
    {field shown : Text}
    (hshown : bodyField notif = some (field, shown))
    (htext : field ≠ textAlias) :
    ∃ raw, coerce (fieldRaw notif field) = some raw ∧ strip raw = shown ∧
      raw ∈ fieldValues notif textAlias ∧
      (fieldValues notif textAlias = [raw] ↔
        ∀ other ∈ bodyFields, other ≠ field → fieldRaw notif other = .none) := by
  obtain ⟨raw, hraw, hstrip, hfield⟩ := coerce_bodyField hshown
  have hmem := hfield.resolve_right htext
  have hnodup : bodyFields.Nodup := by decide
  refine ⟨raw, hraw, hstrip, ?_, ?_⟩
  · rw [fieldValues_textAlias]
    exact List.mem_filterMap.2 ⟨field, hmem, hraw⟩
  · rw [fieldValues_textAlias, filterMap_eq_singleton_iff hnodup hmem hraw]
    simp only [coerce_eq_none_iff]

/-- A rule as the monitor sees it. -/
def NotificationInterruptRule.toRule (rule : NotificationInterruptRule py) : Intake.Rule where
  isMatch := ruleMatches py rule
  action := rule.action

/-- The first rule that matches decides what becomes of a notification. -/
theorem notifDisposition_of_ruleMatches
    {front back : List (NotificationInterruptRule py)} {rule : NotificationInterruptRule py}
    (hsource : notif.source ≠ coreSource)
    (hfront : ∀ other ∈ front, ruleMatches py other notif = false)
    (h : ruleMatches py rule notif = true) :
    Intake.notifDisposition notif
        ((front ++ rule :: back).map NotificationInterruptRule.toRule) = rule.action := by
  have hfind : ((front ++ rule :: back).map NotificationInterruptRule.toRule).find?
      (fun rule => rule.isMatch notif) = some rule.toRule := by
    rw [List.map_append, List.map_cons, List.find?_append, List.find?_eq_none.2, Option.none_or]
    · exact List.find?_cons_of_pos h
    · intro other hother
      obtain ⟨source, hmem, rfl⟩ := List.mem_map.1 hother
      exact Bool.not_eq_true _ ▸ hfront source hmem
  rw [Intake.notifDisposition, if_neg hsource, hfind]
  rfl

end Matching

/-! ## Rules and what they are made from -/

/-- An offered pair makes a condition that matches, and a rule of such conditions matches, except
under a blank field or under `text`; a condition on `text` tests every field of the text that is
there, among them the one that supplies the shown text. -/
theorem rules_follow_notification (notif : Notification) :
    (∀ field value, (field, value) ∈ notifFacetFields notif →
      strip field ≠ [] → field ≠ textAlias →
        ∃ predicate, FieldPredicate.validate py field .contains value false = .ok predicate ∧
          predicateMatches py predicate notif = true) ∧
    (∀ rule : NotificationInterruptRule py,
      (∀ source ∈ rule.source, py.lower source = py.lower notif.source) →
      (∀ type ∈ rule.type, py.lower type = py.lower notif.type) →
      (∀ predicate ∈ rule.predicates,
        predicate.op = .contains ∧ predicate.negate = false ∧ predicate.field ≠ textAlias ∧
          (predicate.field, predicate.value) ∈ notifFacetFields notif) →
      ruleMatches py rule notif = true) ∧
    (∀ predicate : FieldPredicate py, predicate.field = textAlias →
      (predicateMatches py predicate notif = true ↔
        ((∃ field ∈ bodyFields, ∃ value, coerce (fieldRaw notif field) = some value ∧
          predicate.hit py value = true) ↔ predicate.negate = false))) ∧
    ∀ field shown, bodyField notif = some (field, shown) → field ≠ textAlias →
      ∃ raw, coerce (fieldRaw notif field) = some raw ∧ strip raw = shown ∧
        raw ∈ fieldValues notif textAlias ∧
        (fieldValues notif textAlias = [raw] ↔
          ∀ other ∈ bodyFields, other ≠ field → fieldRaw notif other = .none) := by
  refine ⟨?_, fun rule => ruleMatches_of_facets, fun predicate => predicateMatches_textAlias,
    fun field shown => fieldValues_textAlias_of_shown⟩
  intro field value hoffered hblank htext
  obtain ⟨predicate, hvalid, hfield, hop, hvalue, hnegate⟩ := @validate_facet py field value hblank
  subst hfield hvalue
  exact ⟨predicate, hvalid,
    predicateMatches_of_mem hop hnegate (mem_fieldValues_of_facet hoffered htext)⟩

/-! ### A mail -/

/-- The functions of the language, on ASCII texts and patterns without special characters. -/
def ascii : Strings where
  lower text := text.map Char.toLower
  compiles _ := true
  search pattern text := decide (pattern.map Char.toLower <:+: text.map Char.toLower)

/-- Mails carry a subject and a preview, and no message. -/
def mail : Notification where
  timestamp := "2025-01-01T00:00:00".toList
  source := "microsoft".toList
  type := "email".toList
  interrupt := false
  extra := [("subject".toList, .str "Invoice".toList), ("preview".toList, .str "Due".toList)]

def onText (value : Text) : FieldPredicate ascii where
  field := textAlias
  value := value
  field_not_blank := by decide
  value_compiles _ := rfl

/-- A notification with a field named like the alias, and one with a blank name. -/
def note : Notification where
  timestamp := "2025-01-01T00:00:00".toList
  source := "notes".toList
  type := "note".toList
  extra := [(textAlias, .str "hello".toList), ([], .bool true)]

/-- Nothing is shown as body of a mail, and a rule on the text matches its subject; a field with
the name of the alias or none is offered, and no rule on it matches or is made. -/
theorem mail_matches_on_subject :
    ((displayed mail none).content = [] ∧
      predicateMatches ascii (onText "invoice".toList) mail = true) ∧
    ((textAlias, "hello".toList) ∈ notifFacetFields note ∧
      predicateMatches ascii (onText "hello".toList) note = false) ∧
    ([], "True".toList) ∈ notifFacetFields note ∧
    FieldPredicate.validate ascii [] .contains "True".toList false = .error .blankField := by
  refine ⟨⟨?_, ?_⟩, ⟨?_, ?_⟩, ?_, rfl⟩ <;> decide +kernel

end InterruptPolicy
end Agent
end Vesta
