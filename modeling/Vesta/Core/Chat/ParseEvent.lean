import Vesta.Lib.JsString

/-!
# Parsing the events of a chat

Events arrive as JSON values, on the socket and in the pages of the history.  The parser
finds the variant of an event by indexing an object literal with its `type`, and the
variant reads the fields that it keys on and makes an event of the declared ones.  The
literal inherits from `Object.prototype`, so twelve types that it does not list are found
there: one returns the frame as it is, one a string, and the others throw.

A record is its own properties.  Strings are lists of code units, and a number is whether
it is finite, with the text it was parsed from.
-/

namespace Vesta
namespace Core
namespace Chat
namespace ParseEvent

open Lib

abbrev JsStr := List Nat

/-- A string literal. -/
def lit (s : String) : JsStr := JsString.units s.toList

inductive Json
  | null
  | bool (b : Bool)
  | num (finite : Bool) (digits : String)
  | str (s : JsStr)
  | arr (items : List Json)
  | obj (properties : List (JsStr × Json))

abbrev Frame := List (JsStr × Json)

/-- A property; one that is not there is undefined. -/
def get (frame : Frame) (key : String) : Option Json :=
  (frame.find? fun property => property.1 = lit key).map Prod.snd

/-- A value that is given: null reads as absent. -/
def given : Option Json → Option Json
  | some .null => none
  | value => value

/-- `record`: the properties of an object, and the items of an array by their indices. -/
def record : Json → Option Frame
  | .obj properties => some properties
  | .arr items => some (items.zipIdx.map fun entry => (lit (toString entry.2), entry.1))
  | _ => none

/-! ## Fields -/

/-- What a field is declared as. -/
inductive Ty
  | string
  | number
  | boolean
  /-- One of these strings. -/
  | literals (names : List String)
  | attachments
  /-- A record of strings. -/
  | strings
deriving DecidableEq

/-- Whether a field must be there, may be absent or null, is null when it is absent or null, or
is taken along when it has its type. -/
inductive Presence
  | required
  | optional
  | nullable
  | extra
deriving DecidableEq

structure Field where
  key : String
  presence : Presence
  ty : Ty
deriving DecidableEq

namespace Field

def required (key : String) (ty : Ty) : Field := ⟨key, .required, ty⟩

def optional (key : String) (ty : Ty) : Field := ⟨key, .optional, ty⟩

def nullable (key : String) (ty : Ty) : Field := ⟨key, .nullable, ty⟩

def extra (key : String) (ty : Ty) : Field := ⟨key, .extra, ty⟩

section Read

variable (parse : Ty → Json → Option Json)

/-- What a field contributes to an event, unless it is malformed.  `parse` reads a value of a
type. -/
def read (f : Field) (frame : Frame) : Option Frame :=
  match f.presence with
  | .required => ((get frame f.key).bind (parse f.ty)).map fun value => [(lit f.key, value)]
  | .optional =>
      match given (get frame f.key) with
      | none => some []
      | some value => (parse f.ty value).map fun value => [(lit f.key, value)]
  | .nullable =>
      match given (get frame f.key) with
      | none => some [(lit f.key, .null)]
      | some value => (parse f.ty value).map fun value => [(lit f.key, value)]
  | .extra =>
      match (get frame f.key).bind (parse f.ty) with
      | none => some []
      | some value => some [(lit f.key, value)]

/-- The fields of a frame in order, unless one is malformed. -/
def parseFields (fields : List Field) (frame : Frame) : Option Frame :=
  Option.map List.flatten (fields.mapM fun f => f.read parse frame)

end Read

end Field

/-- `str`, `optionalNum` and the others on a value that is there. -/
def parseScalar : Ty → Json → Option Json
  | .string, .str s => some (.str s)
  | .number, .num true digits => some (.num true digits)
  | .boolean, .bool b => some (.bool b)
  | .literals names, .str s => if s ∈ names.map lit then some (.str s) else none
  | _, _ => none

def attachmentFields : List Field :=
  [.required "id" .string, .required "name" .string, .required "mime" .string,
    .required "size" .number, .optional "width" .number, .optional "height" .number,
    .optional "duration_secs" .number]

def parseAttachment (value : Json) : Option Json :=
  ((record value).bind (Field.parseFields parseScalar attachmentFields)).map .obj

/-- An attachment that is malformed makes all of them malformed. -/
def parseAttachments (items : List Json) : Option Json := (items.mapM parseAttachment).map .arr

def isStr : Json → Bool
  | .str _ => true
  | _ => false

def parse : Ty → Json → Option Json
  | .attachments, .arr items => parseAttachments items
  | .attachments, _ => none
  | .strings, value =>
      (record value).map fun fields => .obj (fields.filter fun field => isStr field.2)
  | ty, value => parseScalar ty value

/-! ## Variants -/

def baseFields : List Field := [.optional "id" .number, .optional "ts" .string]

def parseBase (frame : Frame) : Option Frame := Field.parseFields parse baseFields frame

/-- A variant reads its fields and puts them behind the base and the type. -/
def variant (name : String) (fields : List Field) (frame base : Frame) : Option Frame :=
  (Field.parseFields parse fields frame).map fun own =>
    base ++ (lit "type", .str (lit name)) :: own

def userFields : List Field :=
  [.required "text" .string, .optional "input_method" (.literals ["voice", "typed"]),
    .optional "attachments" .attachments, .optional "intent_id" .string]

def chatFields : List Field :=
  [.required "text" .string, .optional "attachments" .attachments]

/-- The fields of `assistant` and of `error`. -/
def textFields : List Field := [.required "text" .string]

def thinkingFields : List Field := [.required "text" .string, .required "signature" .string]

def statusFields : List Field := [.required "state" (.literals ["idle", "thinking"])]

def toolStartFields : List Field :=
  [.required "tool" .string, .required "input" .string, .optional "subagent" .boolean]

def toolEndFields : List Field := [.required "tool" .string, .optional "subagent" .boolean]

def rateLimitedFields : List Field :=
  [.required "text" .string, .nullable "window" .string, .nullable "resets_at" .number]

/-- The last five are the extras of `notificationExtras`. -/
def notificationFields : List Field :=
  [.required "source" .string, .required "summary" .string, .extra "notif_type" .string,
    .extra "sender" .string, .extra "notif_id" .string, .extra "fields" .strings,
    .extra "decided" (.literals ["interrupt", "snooze", "trash"])]

def notificationClearedFields : List Field := [.required "notif_id" .string]

/-- The fields of `subagentEvent`. -/
def subagentFields : List Field :=
  [.required "agent_id" .string, .required "agent_type" .string]

/-- The own properties of `VARIANTS`: the fields of each variant. -/
def variants : List (String × List Field) :=
  [("user", userFields), ("chat", chatFields), ("assistant", textFields),
    ("error", textFields), ("thinking", thinkingFields), ("status", statusFields),
    ("tool_start", toolStartFields), ("tool_end", toolEndFields),
    ("rate_limited", rateLimitedFields), ("notification", notificationFields),
    ("notification_cleared", notificationClearedFields), ("subagent_start", subagentFields),
    ("subagent_stop", subagentFields)]

/-! ## Events and pages -/

/-- A call throws or returns a value. -/
inductive Called
  | threw
  | returned (value : Json)

/-- What calling a property of `Object.prototype` does to a frame.  `Object` returns an object
as it is, `toString` describes its receiver, which is undefined, the other methods make an
object of it, and the prototype itself is no function. -/
def inherited : List (String × (Frame → Called)) :=
  [("constructor", fun frame => .returned (.obj frame)),
    ("toString", fun _ => .returned (.str (lit "[object Undefined]"))),
    ("toLocaleString", fun _ => .threw), ("valueOf", fun _ => .threw),
    ("hasOwnProperty", fun _ => .threw), ("isPrototypeOf", fun _ => .threw),
    ("propertyIsEnumerable", fun _ => .threw), ("__defineGetter__", fun _ => .threw),
    ("__defineSetter__", fun _ => .threw), ("__lookupGetter__", fun _ => .threw),
    ("__lookupSetter__", fun _ => .threw), ("__proto__", fun _ => .threw)]

/-- The value of a property of an object literal: its own, or an inherited one. -/
def parseTyped (type : JsStr) (frame base : Frame) : Called :=
  match variants.find? fun entry => lit entry.1 = type with
  | some entry =>
      match variant entry.1 entry.2 frame base with
      | some event => .returned (.obj event)
      | none => .returned .null
  | none =>
      match inherited.find? fun entry => lit entry.1 = type with
      | some entry => entry.2 frame
      | none => .returned .null

def parseChatEvent (value : Json) : Called :=
  match record value with
  | none => .returned .null
  | some frame =>
      match parseBase frame with
      | none => .returned .null
      | some base =>
          match get frame "type" with
          | some (.str type) => parseTyped type frame base
          | _ => .returned .null

structure HistoryPage where
  events : List Json
  cursor : Option Json

/-- What a page contributes for an event, unless its parser throws. -/
def keepEvent (event : Json) : Option (List Json) :=
  match parseChatEvent event with
  | .threw => none
  | .returned .null => some []
  | .returned value => some [value]

/-- The events of a page, when they are an array. -/
def pageEvents (value : Json) : List Json :=
  match (record value).bind (get · "events") with
  | some (.arr events) => events
  | _ => []

/-- The page, or nothing when the parser throws. -/
def parseHistoryPage (value : Json) : Option HistoryPage :=
  ((pageEvents value).mapM keepEvent).map fun events =>
    { events := events.flatten
      cursor :=
        match (record value).bind (get · "cursor") with
        | some (.num finite digits) => some (.num finite digits)
        | _ => none }

/-! ## What is declared -/

/-- The values of a scalar type. -/
def ScalarTyped : Ty → Json → Prop
  | .string, .str _ => True
  | .number, .num true _ => True
  | .boolean, .bool _ => True
  | .literals names, .str s => s ∈ names.map lit
  | _, _ => False

namespace Field

section Declared

variable (typed : Ty → Json → Prop)

/-- A frame has the field as it is declared; what is taken along is not keyed on. -/
def DeclaredIn (f : Field) (frame : Frame) : Prop :=
  match f.presence with
  | .required => ∃ value, get frame f.key = some value ∧ typed f.ty value
  | .optional => ∀ value, given (get frame f.key) = some value → typed f.ty value
  | .nullable => ∀ value, given (get frame f.key) = some value → typed f.ty value
  | .extra => True

/-- An event has only declared fields with values of their types, and those that it must have. -/
structure Declares (fields : List Field) (event : Frame) : Prop where
  only : ∀ property ∈ event, ∃ f ∈ fields, property.1 = lit f.key ∧
    (typed f.ty property.2 ∨ f.presence = .nullable ∧ property.2 = .null)
  all : ∀ f ∈ fields, f.presence = .required ∨ f.presence = .nullable →
    ∃ value, (lit f.key, value) ∈ event

/-- `parse` reads the values of their types, and what it reads is exactly of the type. -/
structure Reads
    (parse : Ty → Json → Option Json) (typed exact : Ty → Json → Prop) : Prop where
  typed : ∀ ty value, (parse ty value).isSome = true ↔ typed ty value
  exact : ∀ ty value read, parse ty value = some read → exact ty read

end Declared

section Reading

variable {parse : Ty → Json → Option Json}
variable {typed exact : Ty → Json → Prop}
variable {f : Field}
variable {fields : List Field}
variable {frame : Frame}

theorem isSome_read_iff
    (h : Reads parse typed exact) :
    (f.read parse frame).isSome = true ↔ f.DeclaredIn typed frame := by
  rw [read, DeclaredIn]
  cases f.presence with
  | required =>
      cases hget : get frame f.key with
      | none => simp
      | some value => simp [h.typed]
  | optional =>
      cases hget : given (get frame f.key) with
      | none => simp
      | some value => simp [h.typed]
  | nullable =>
      cases hget : given (get frame f.key) with
      | none => simp
      | some value => simp [h.typed]
  | extra => cases (get frame f.key).bind (parse f.ty) <;> simp

/-- What a field contributes is declared by it. -/
theorem declares_read
    (h : Reads parse typed exact)
    {own : Frame}
    (hread : f.read parse frame = some own) :
    Declares exact [f] own := by
  have hone (value : Json) (hvalue : exact f.ty value ∨ f.presence = .nullable ∧ value = .null) :
      Declares exact [f] [(lit f.key, value)] := by
    constructor
    · intro property hproperty
      rw [List.mem_singleton.1 hproperty]
      exact ⟨f, List.mem_singleton_self f, rfl, hvalue⟩
    · intro f' hf' _
      rw [List.mem_singleton.1 hf']
      exact ⟨value, List.mem_singleton_self _⟩
  have hparsed (value : Json)
      (hown : (parse f.ty value).map (fun value => [(lit f.key, value)]) = some own) :
      Declares exact [f] own := by
    obtain ⟨value', hvalue', rfl⟩ := Option.map_eq_some_iff.1 hown
    exact hone value' (.inl (h.exact _ _ _ hvalue'))
  have hnone (hpresence : f.presence = .optional ∨ f.presence = .extra) :
      Declares exact [f] [] := by
    constructor
    · simp
    · intro f' hf' hmust
      rw [List.mem_singleton.1 hf'] at hmust
      rcases hpresence with hpresence | hpresence <;> simp [hpresence] at hmust
  rw [read] at hread
  cases hpresence : f.presence with
  | required =>
      rw [hpresence] at hread
      cases hget : get frame f.key with
      | none => simp [hget] at hread
      | some value => exact hparsed value (by simpa [hget] using hread)
  | optional =>
      rw [hpresence] at hread
      cases hget : given (get frame f.key) with
      | none =>
          simp only [hget, Option.some.injEq] at hread
          exact hread ▸ hnone (.inl hpresence)
      | some value => exact hparsed value (by simpa [hget] using hread)
  | nullable =>
      rw [hpresence] at hread
      cases hget : given (get frame f.key) with
      | none =>
          simp only [hget, Option.some.injEq] at hread
          exact hread ▸ hone .null (.inr ⟨hpresence, rfl⟩)
      | some value => exact hparsed value (by simpa [hget] using hread)
  | extra =>
      rw [hpresence] at hread
      cases hbind : (get frame f.key).bind (parse f.ty) with
      | none =>
          simp only [hbind, Option.some.injEq] at hread
          exact hread ▸ hnone (.inr hpresence)
      | some value =>
          simp only [hbind, Option.some.injEq] at hread
          obtain ⟨value', -, hvalue'⟩ := Option.bind_eq_some_iff.1 hbind
          exact hread ▸ hone value (.inl (h.exact _ _ _ hvalue'))

theorem Declares.append
    {others : List Field} {own other : Frame}
    (h : Declares exact fields own)
    (hother : Declares exact others other) :
    Declares exact (fields ++ others) (own ++ other) := by
  constructor
  · intro property hproperty
    rcases List.mem_append.1 hproperty with hproperty | hproperty
    · obtain ⟨f, hf, hdeclared⟩ := h.only property hproperty
      exact ⟨f, List.mem_append_left _ hf, hdeclared⟩
    · obtain ⟨f, hf, hdeclared⟩ := hother.only property hproperty
      exact ⟨f, List.mem_append_right _ hf, hdeclared⟩
  · intro f hf hmust
    rcases List.mem_append.1 hf with hf | hf
    · obtain ⟨value, hvalue⟩ := h.all f hf hmust
      exact ⟨value, List.mem_append_left _ hvalue⟩
    · obtain ⟨value, hvalue⟩ := hother.all f hf hmust
      exact ⟨value, List.mem_append_right _ hvalue⟩

theorem parseFields_nil : parseFields parse [] frame = some [] := rfl

theorem parseFields_cons :
    parseFields parse (f :: fields) frame =
      (f.read parse frame).bind fun own => (parseFields parse fields frame).map (own ++ ·) := by
  rw [parseFields, parseFields, List.mapM_cons]
  cases f.read parse frame with
  | none => rfl
  | some own => cases fields.mapM (fun f => f.read parse frame) <;> rfl

/-- The fields are read exactly from the frames that have them as they are declared. -/
theorem isSome_parseFields_iff
    (h : Reads parse typed exact) :
    (parseFields parse fields frame).isSome = true ↔
      ∀ f ∈ fields, f.DeclaredIn typed frame := by
  induction fields with
  | nil => simp [parseFields_nil]
  | cons f fields ih =>
      rw [List.forall_mem_cons, ← ih, ← isSome_read_iff h, parseFields_cons]
      cases f.read parse frame <;> simp

/-- What is read has only declared fields. -/
theorem declares_parseFields
    (h : Reads parse typed exact)
    {own : Frame}
    (hread : parseFields parse fields frame = some own) :
    Declares exact fields own := by
  induction fields generalizing own with
  | nil =>
      cases hread
      exact ⟨by simp, by simp⟩
  | cons f fields ih =>
      rw [parseFields_cons] at hread
      obtain ⟨first, hfirst, hread⟩ := Option.bind_eq_some_iff.1 hread
      obtain ⟨rest, hrest, rfl⟩ := Option.map_eq_some_iff.1 hread
      exact (declares_read h hfirst).append (ih hrest)

end Reading

end Field

/-- A frame's item is an attachment. -/
def IsAttachment (value : Json) : Prop :=
  ∃ fields, record value = some fields ∧
    ∀ f ∈ attachmentFields, f.DeclaredIn ScalarTyped fields

/-- What a frame has for a field of a type. -/
def Typed : Ty → Json → Prop
  | .attachments, .arr items => ∀ item ∈ items, IsAttachment item
  | .attachments, _ => False
  | .strings, value => (record value).isSome = true
  | ty, value => ScalarTyped ty value

/-- An attachment with no other fields. -/
def IsExactAttachment (value : Json) : Prop :=
  ∃ fields, value = .obj fields ∧ Field.Declares ScalarTyped attachmentFields fields

/-- What an event has for a field of a type. -/
def Exact : Ty → Json → Prop
  | .attachments, .arr items => ∀ item ∈ items, IsExactAttachment item
  | .attachments, _ => False
  | .strings, .obj fields => ∀ field ∈ fields, isStr field.2 = true
  | .strings, _ => False
  | ty, value => ScalarTyped ty value

theorem reads_scalar : Field.Reads parseScalar ScalarTyped ScalarTyped := by
  constructor
  · intro ty value
    cases ty <;> cases value <;> simp [parseScalar, ScalarTyped]
    case number.num finite digits => cases finite <;> simp
  · intro ty value read h
    cases ty <;> cases value <;> simp only [parseScalar, reduceCtorEq, Option.some.injEq] at h
    case number.num finite digits =>
      cases finite with
      | false => simp at h
      | true =>
          simp only [Option.some.injEq] at h
          rw [← h]
          trivial
    case literals.str names text =>
      split at h
      · rename_i hmem
        rw [← Option.some.inj h]
        exact hmem
      · cases h
    all_goals
      rw [← h]
      trivial

theorem isSome_parseAttachment_iff
    {value : Json} :
    (parseAttachment value).isSome = true ↔ IsAttachment value := by
  rw [parseAttachment, IsAttachment, Option.isSome_map]
  cases record value with
  | none => simp
  | some fields => simp [Field.isSome_parseFields_iff reads_scalar]

theorem isExactAttachment_of_parse
    {value read : Json}
    (h : parseAttachment value = some read) :
    IsExactAttachment read := by
  obtain ⟨fields, hfields, rfl⟩ := Option.map_eq_some_iff.1 h
  obtain ⟨frame, -, hread⟩ := Option.bind_eq_some_iff.1 hfields
  exact ⟨fields, rfl, Field.declares_parseFields reads_scalar hread⟩

theorem parseAttachments_cons
    {item : Json} {items : List Json} :
    (item :: items).mapM parseAttachment =
      (parseAttachment item).bind fun first =>
        (items.mapM parseAttachment).map (first :: ·) := by
  rw [List.mapM_cons]
  cases parseAttachment item with
  | none => rfl
  | some first => cases items.mapM parseAttachment <;> rfl

theorem isSome_parseAttachments_iff
    {items : List Json} :
    (parseAttachments items).isSome = true ↔ ∀ item ∈ items, IsAttachment item := by
  rw [parseAttachments, Option.isSome_map]
  induction items with
  | nil => simp
  | cons item items ih =>
      rw [List.forall_mem_cons, ← ih, ← isSome_parseAttachment_iff, parseAttachments_cons]
      cases parseAttachment item <;> simp

theorem exact_of_parseAttachments
    {items : List Json} {read : Json}
    (h : parseAttachments items = some read) :
    Exact .attachments read := by
  obtain ⟨reads, hreads, rfl⟩ := Option.map_eq_some_iff.1 h
  rw [Exact]
  clear h
  induction items generalizing reads with
  | nil =>
      cases hreads
      simp
  | cons item items ih =>
      rw [parseAttachments_cons] at hreads
      obtain ⟨first, hfirst, hreads⟩ := Option.bind_eq_some_iff.1 hreads
      obtain ⟨rest, hrest, rfl⟩ := Option.map_eq_some_iff.1 hreads
      rw [List.forall_mem_cons]
      exact ⟨isExactAttachment_of_parse hfirst, ih rest hrest⟩

theorem reads_parse : Field.Reads parse Typed Exact := by
  constructor
  · intro ty value
    cases ty with
    | attachments =>
        cases value with
        | arr items => exact isSome_parseAttachments_iff
        | _ => simp [parse, Typed]
    | strings => simp [parse, Typed]
    | _ => exact reads_scalar.typed _ value
  · intro ty value read h
    cases ty with
    | attachments =>
        cases value with
        | arr items => exact exact_of_parseAttachments h
        | _ => cases h
    | strings =>
        obtain ⟨fields, -, rfl⟩ := Option.map_eq_some_iff.1 h
        intro field hfield
        exact (List.mem_filter.1 hfield).2
    | _ => exact reads_scalar.exact _ value read h

/-! ## Events of the listed variants -/

/-- A frame is of a listed variant, and has the fields that the variant keys on. -/
structure WellTyped (entry : String × List Field) (value : Json) (frame : Frame) : Prop where
  listed : entry ∈ variants
  recorded : record value = some frame
  type : get frame "type" = some (.str (lit entry.1))
  fields : ∀ f ∈ baseFields ++ entry.2, f.DeclaredIn Typed frame

/-- The fields that an event of a variant declares. -/
def eventFields (entry : String × List Field) : List Field :=
  baseFields ++ Field.required "type" (.literals [entry.1]) :: entry.2

/-- The event that a value is, by the variants that are listed. -/
def recognize (value : Json) : Option Frame :=
  (record value).bind fun frame => (parseBase frame).bind fun base =>
    match get frame "type" with
    | some (.str type) =>
        (variants.find? fun entry => lit entry.1 = type).bind fun entry =>
          variant entry.1 entry.2 frame base
    | _ => none

section Recognize

variable {value : Json}
variable {event : Frame}

/-- The names of the variants are apart. -/
theorem find?_variants :
    ∀ entry ∈ variants, (variants.find? fun other => lit other.1 = lit entry.1) = some entry := by
  decide +kernel

theorem variant_eq_some_iff
    {entry : String × List Field} {frame base : Frame} :
    variant entry.1 entry.2 frame base = some event ↔
      ∃ own, Field.parseFields parse entry.2 frame = some own ∧
        base ++ (lit "type", .str (lit entry.1)) :: own = event := by
  rw [variant, Option.map_eq_some_iff]

theorem recognize_eq_some
    (h : recognize value = some event) :
    ∃ entry frame, WellTyped entry value frame ∧
      Field.Declares Exact (eventFields entry) event := by
  obtain ⟨frame, hframe, h⟩ := Option.bind_eq_some_iff.1 h
  obtain ⟨base, hbase, h⟩ := Option.bind_eq_some_iff.1 h
  split at h
  · rename_i type htype
    obtain ⟨entry, hentry, h⟩ := Option.bind_eq_some_iff.1 h
    obtain ⟨own, hown, rfl⟩ := variant_eq_some_iff.1 h
    have hlisted := List.mem_of_find?_eq_some hentry
    have hname : lit entry.1 = type := by simpa using List.find?_some hentry
    have hbaseFields := (Field.isSome_parseFields_iff reads_parse).1
      (Option.isSome_of_eq_some hbase)
    have hownFields := (Field.isSome_parseFields_iff reads_parse).1
      (Option.isSome_of_eq_some hown)
    refine ⟨entry, frame, ⟨hlisted, hframe, hname ▸ htype, ?_⟩, ?_⟩
    · intro f hf
      rcases List.mem_append.1 hf with hf | hf
      · exact hbaseFields f hf
      · exact hownFields f hf
    · have htypeField : Field.Declares Exact [Field.required "type" (.literals [entry.1])]
          [(lit "type", .str (lit entry.1))] := by
        constructor
        · intro property hproperty
          rw [List.mem_singleton.1 hproperty]
          exact ⟨_, List.mem_singleton_self _, rfl, .inl (List.mem_singleton_self _)⟩
        · intro f hf _
          rw [List.mem_singleton.1 hf]
          exact ⟨_, List.mem_singleton_self _⟩
      have hdeclared := (Field.declares_parseFields reads_parse hbase).append
        (htypeField.append (Field.declares_parseFields reads_parse hown))
      exact hdeclared
  · cases h

theorem isSome_recognize
    {entry : String × List Field} {frame : Frame}
    (h : WellTyped entry value frame) :
    (recognize value).isSome = true := by
  have hbase : (parseBase frame).isSome = true :=
    (Field.isSome_parseFields_iff reads_parse).2 fun f hf =>
      h.fields f (List.mem_append_left _ hf)
  have hown : (Field.parseFields parse entry.2 frame).isSome = true :=
    (Field.isSome_parseFields_iff reads_parse).2 fun f hf =>
      h.fields f (List.mem_append_right _ hf)
  obtain ⟨base, hbase⟩ := Option.isSome_iff_exists.1 hbase
  obtain ⟨own, hown⟩ := Option.isSome_iff_exists.1 hown
  have hevent : variant entry.1 entry.2 frame base =
      some (base ++ (lit "type", .str (lit entry.1)) :: own) :=
    variant_eq_some_iff.2 ⟨own, hown, rfl⟩
  rw [recognize, h.recorded, Option.bind_some, hbase, Option.bind_some, h.type]
  simp only [find?_variants entry h.listed, Option.bind_some]
  exact Option.isSome_of_eq_some hevent

/-- The values that are recognized are those of a listed variant with its fields. -/
theorem isSome_recognize_iff :
    (recognize value).isSome = true ↔ ∃ entry frame, WellTyped entry value frame := by
  constructor
  · intro h
    obtain ⟨event, hevent⟩ := Option.isSome_iff_exists.1 h
    obtain ⟨entry, frame, htyped, -⟩ := recognize_eq_some hevent
    exact ⟨entry, frame, htyped⟩
  · rintro ⟨entry, frame, h⟩
    exact isSome_recognize h

end Recognize

/-! ## Types that are inherited -/

/-- A frame with a well-formed base whose type is the name of a property of
`Object.prototype`. -/
structure InheritedType (name : String) (value : Json) (frame : Frame) : Prop where
  name_mem : name ∈ inherited.map Prod.fst
  recorded : record value = some frame
  base : ∀ f ∈ baseFields, f.DeclaredIn Typed frame
  type : get frame "type" = some (.str (lit name))

/-- The parser does not throw, and returns null or the event of a well-typed frame, which has
only the declared fields. -/
def ParsesClosed (value : Json) : Prop :=
  parseChatEvent value = .returned .null ∨
    ∃ entry frame event, parseChatEvent value = .returned (.obj event) ∧
      WellTyped entry value frame ∧ Field.Declares Exact (eventFields entry) event

/-- A page is parsed to the events that are recognized, in order. -/
def KeepsRecognized (value : Json) : Prop :=
  ∃ page, parseHistoryPage value = some page ∧
    page.events = ((pageEvents value).filterMap recognize).map .obj

section Inherited

variable {value : Json}

/-- No inherited property is listed. -/
theorem find?_variants_inherited :
    ∀ name ∈ inherited.map Prod.fst,
      (variants.find? fun entry => lit entry.1 = lit name) = none := by
  decide +kernel

/-- What an inherited property gives is no null. -/
theorem inherited_ne_null
    {entry : String × (Frame → Called)}
    (h : entry ∈ inherited)
    (frame : Frame) :
    entry.2 frame ≠ .returned .null := by
  simp only [inherited, List.mem_cons, List.not_mem_nil, or_false] at h
  rcases h with rfl | rfl | rfl | rfl | rfl | rfl | rfl | rfl | rfl | rfl | rfl | rfl <;> simp

theorem parseBase_isSome
    {frame : Frame}
    (h : ∀ f ∈ baseFields, f.DeclaredIn Typed frame) :
    (parseBase frame).isSome = true :=
  (Field.isSome_parseFields_iff reads_parse).2 h

/-- A frame with an inherited type is not recognized, and its parser throws or returns
something. -/
theorem InheritedType.parse_ne_null
    {name : String} {frame : Frame}
    (h : InheritedType name value frame) :
    recognize value = none ∧ parseChatEvent value ≠ .returned .null := by
  obtain ⟨base, hbase⟩ := Option.isSome_iff_exists.1 (parseBase_isSome h.base)
  have hnone := find?_variants_inherited name h.name_mem
  constructor
  · rw [recognize, h.recorded, Option.bind_some, hbase, Option.bind_some, h.type]
    simp only [hnone, Option.bind_none]
  · obtain ⟨entry, hentry, hname⟩ := List.mem_map.1 h.name_mem
    have hfound : (inherited.find? fun entry => lit entry.1 = lit name).isSome = true := by
      rw [List.find?_isSome]
      exact ⟨entry, hentry, by simp [hname]⟩
    obtain ⟨found, hfound⟩ := Option.isSome_iff_exists.1 hfound
    rw [parseChatEvent, h.recorded]
    simp only [hbase, h.type, parseTyped, hnone, hfound]
    exact inherited_ne_null (List.mem_of_find?_eq_some hfound) frame

/-- Every other value is parsed to what is recognized. -/
theorem parseChatEvent_eq
    (h : ∀ name frame, ¬ InheritedType name value frame) :
    parseChatEvent value = .returned ((recognize value).elim .null .obj) := by
  rw [parseChatEvent, recognize]
  cases hrecord : record value with
  | none => rfl
  | some frame =>
      simp only [Option.bind_some]
      cases hbase : parseBase frame with
      | none => rfl
      | some base =>
          simp only [Option.bind_some]
          split
          · rename_i type htype
            rw [parseTyped]
            cases hfind : variants.find? fun entry => lit entry.1 = type with
            | some entry =>
                simp only [Option.bind_some]
                cases variant entry.1 entry.2 frame base <;> rfl
            | none =>
                have hnone : (inherited.find? fun entry => lit entry.1 = type) = none := by
                  rw [List.find?_eq_none]
                  intro entry hentry hname
                  have hname' : lit entry.1 = type := by simpa using hname
                  refine h entry.1 frame
                    ⟨List.mem_map_of_mem hentry, hrecord, ?_, hname' ▸ htype⟩
                  exact (Field.isSome_parseFields_iff reads_parse).1
                    (Option.isSome_of_eq_some hbase)
                rw [hnone]
                rfl
          · rfl

theorem parsesClosed_iff :
    ParsesClosed value ↔ ∀ name frame, ¬ InheritedType name value frame := by
  constructor
  · rintro h name frame hinherited
    obtain ⟨hnone, hne⟩ := hinherited.parse_ne_null
    rcases h with h | ⟨entry, frame', event, -, htyped, -⟩
    · exact hne h
    · have hsome := isSome_recognize htyped
      rw [hnone] at hsome
      cases hsome
  · intro h
    have heq := parseChatEvent_eq h
    cases hevent : recognize value with
    | none =>
        rw [hevent] at heq
        exact .inl heq
    | some event =>
        rw [hevent] at heq
        obtain ⟨entry, frame, htyped, hdeclared⟩ := recognize_eq_some hevent
        exact .inr ⟨entry, frame, event, heq, htyped, hdeclared⟩

/-! ### Pages -/

theorem keepEvent_eq
    (h : ∀ name frame, ¬ InheritedType name value frame) :
    keepEvent value = some ((recognize value).elim [] fun event => [.obj event]) := by
  rw [keepEvent, parseChatEvent_eq h]
  cases recognize value <;> rfl

/-- An event with an inherited type makes the page throw or is kept, although it is not
recognized. -/
theorem InheritedType.keepEvent
    {name : String} {frame : Frame}
    (h : InheritedType name value frame) :
    recognize value = none ∧ ∀ kept, keepEvent value = some kept → kept.length = 1 := by
  obtain ⟨hnone, hne⟩ := h.parse_ne_null
  refine ⟨hnone, ?_⟩
  intro kept hkept
  rw [ParseEvent.keepEvent] at hkept
  split at hkept
  · cases hkept
  · rename_i hnull
    exact absurd hnull hne
  · cases hkept
    rfl

theorem mapM_keepEvent_cons
    {event : Json} {events : List Json} :
    (event :: events).mapM keepEvent =
      (keepEvent event).bind fun kept => (events.mapM keepEvent).map (kept :: ·) := by
  rw [List.mapM_cons]
  cases keepEvent event with
  | none => rfl
  | some kept => cases events.mapM keepEvent <;> rfl

theorem mapM_keepEvent
    {events : List Json}
    (h : ∀ event ∈ events, ∀ name frame, ¬ InheritedType name event frame) :
    ∃ kept, events.mapM keepEvent = some kept ∧
      kept.flatten = (events.filterMap recognize).map .obj := by
  induction events with
  | nil => exact ⟨[], rfl, rfl⟩
  | cons event events ih =>
      rw [List.forall_mem_cons] at h
      obtain ⟨kept, hkept, hflat⟩ := ih h.2
      rw [mapM_keepEvent_cons, keepEvent_eq h.1, hkept]
      refine ⟨_, rfl, ?_⟩
      rw [List.flatten_cons, hflat]
      cases hevent : recognize event <;> simp [hevent]

/-- No fewer events are kept than are recognized, and more when a type is inherited. -/
theorem length_le_mapM_keepEvent
    {events : List Json} {kept : List (List Json)}
    (h : events.mapM keepEvent = some kept) :
    (events.filterMap recognize).length ≤ kept.flatten.length ∧
      ∀ event ∈ events, ∀ name frame, InheritedType name event frame →
        (events.filterMap recognize).length < kept.flatten.length := by
  induction events generalizing kept with
  | nil => simp
  | cons event events ih =>
      rw [mapM_keepEvent_cons] at h
      obtain ⟨first, hfirst, h⟩ := Option.bind_eq_some_iff.1 h
      obtain ⟨rest, hrest, rfl⟩ := Option.map_eq_some_iff.1 h
      obtain ⟨hle, hlt⟩ := ih hrest
      by_cases hinherited : ∃ name frame, InheritedType name event frame
      · obtain ⟨name, frame, hinherited⟩ := hinherited
        obtain ⟨hnone, hlength⟩ := hinherited.keepEvent
        have hone := hlength first hfirst
        rw [List.filterMap_cons_none hnone, List.flatten_cons, List.length_append, hone]
        exact ⟨by omega, fun _ _ _ _ _ => by omega⟩
      · push Not at hinherited
        have hfirst' := keepEvent_eq hinherited
        rw [hfirst] at hfirst'
        have hlength : (events.filterMap recognize).length + first.length =
            ((event :: events).filterMap recognize).length := by
          cases hevent : recognize event with
          | none =>
              rw [hevent] at hfirst'
              rw [List.filterMap_cons_none hevent, Option.some.inj hfirst']
              rfl
          | some e =>
              rw [hevent] at hfirst'
              rw [List.filterMap_cons_some hevent, Option.some.inj hfirst']
              rfl
        rw [List.flatten_cons, List.length_append, ← hlength]
        refine ⟨by omega, fun other hother name frame hother' => ?_⟩
        rcases List.mem_cons.1 hother with rfl | hmem
        · exact absurd hother' (hinherited name frame)
        · have := hlt other hmem name frame hother'
          omega

theorem keepsRecognized_iff :
    KeepsRecognized value ↔
      ∀ event ∈ pageEvents value, ∀ name frame, ¬ InheritedType name event frame := by
  constructor
  · rintro ⟨page, hpage, hevents⟩ event hevent name frame hinherited
    obtain ⟨kept, hkept, rfl⟩ := Option.map_eq_some_iff.1 hpage
    have hlt := (length_le_mapM_keepEvent hkept).2 event hevent name frame hinherited
    have hlength := congrArg List.length hevents
    rw [List.length_map] at hlength
    simp only at hlength
    omega
  · intro h
    obtain ⟨kept, hkept, hflat⟩ := mapM_keepEvent h
    rw [KeepsRecognized, parseHistoryPage, hkept]
    exact ⟨_, rfl, hflat⟩

end Inherited

/-- A value is parsed without a throw to null or to an event of the declared fields of a
well-typed frame, and a page to its recognized events in order, if and only if no type is the
name of a property of `Object.prototype`; the recognized events are the well-typed frames. -/
theorem parseChatEvent_closed
    (value : Json) :
    (ParsesClosed value ↔ ∀ name frame, ¬ InheritedType name value frame) ∧
      (KeepsRecognized value ↔
        ∀ event ∈ pageEvents value, ∀ name frame, ¬ InheritedType name event frame) ∧
      ((recognize value).isSome = true ↔ ∃ entry frame, WellTyped entry value frame) :=
  ⟨parsesClosed_iff, keepsRecognized_iff, isSome_recognize_iff⟩

/-- The type `constructor` returns the frame with a field that no event declares, and the type
`valueOf` throws. -/
theorem constructor_returns_frame :
    parseChatEvent (.obj [(lit "type", .str (lit "constructor")), (lit "x", .null)]) =
        .returned (.obj [(lit "type", .str (lit "constructor")), (lit "x", .null)]) ∧
      parseChatEvent (.obj [(lit "type", .str (lit "valueOf"))]) = .threw ∧
      parseHistoryPage (.obj [(lit "events",
        .arr [.obj [(lit "type", .str (lit "valueOf"))]])]) = none := by
  refine ⟨?_, ?_, ?_⟩ <;> rfl

end ParseEvent
end Chat
end Core
end Vesta
