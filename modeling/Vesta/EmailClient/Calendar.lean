import Vesta.EmailClient.Folding

/-!
# Calendars read and written

A reader keeps the components that are open, the innermost first, and closes one into the
component around it.  Writing a component and reading the text gives the component with each
property as it is read from its own line, so nothing but a value that had to be put in quotes
comes back changed.
-/

namespace Vesta
namespace EmailClient

open Lib
open Lib.Quoted
open Agent (isSpace strip)

/-- `Component` -/
inductive Component
  | mk (name : Text) (props : List Property) (children : List Component)

namespace Component

def name : Component → Text
  | mk name _ _ => name

def children : Component → List Component
  | mk _ _ children => children

def addProp : Component → Property → Component
  | mk name props children, p => mk name (props ++ [p]) children

def addChild : Component → Component → Component
  | mk name props children, c => mk name props (children ++ [c])

end Component

/-! ## Reading -/

/-- The components that were read, and those that are open, the innermost first.  The source
puts a component into the one around it when it opens; until it closes, nothing else is put
there. -/
structure Reader where
  roots : List Component
  stack : List Component

namespace Reader

def «open» (r : Reader) (c : Component) : Reader := { r with stack := c :: r.stack }

def close : Reader → Reader
  | ⟨roots, []⟩ => ⟨roots, []⟩
  | ⟨roots, [c]⟩ => ⟨roots ++ [c], []⟩
  | ⟨roots, c :: parent :: rest⟩ => ⟨roots, parent.addChild c :: rest⟩

def addProp (r : Reader) (p : Property) : Reader :=
  match r.stack with
  | [] => r
  | c :: rest => { r with stack := c.addProp p :: rest }

/-- The roots at the end of the text, where what is open stays as it is. -/
def finish (r : Reader) : List Component := (close^[r.stack.length] r).roots

end Reader

/-- What one line does. -/
def readStep (up : Upper) (r : Reader) (line : Text) : Option Reader :=
  (readLine up line).map fun p =>
    if p.name = beginName then r.open (.mk (up.text (strip p.value)) [] [])
    else if p.name = endName then r.close
    else r.addProp p

/-- `parse`; `none` where a line has no colon outside of quotes. -/
def parse (up : Upper) (text : Text) : Option (List Component) :=
  ((unfold text).foldlM (readStep up) ⟨[], []⟩).map Reader.finish

/-! ## Writing -/

def beginLine (name : Text) : Text := beginName ++ ':' :: name

def endLine (name : Text) : Text := endName ++ ':' :: name

/-- `str.rstrip("\r\n")` -/
def rstrip (text : Text) : Text := text.rdropWhile fun c => c == '\r' || c == '\n'

mutual

/-- `serialize` -/
def serialize : Component → Text
  | .mk name props children =>
      crlf.intercalate (beginLine name :: (props.map fun p => fold p.line) ++
        serializeEach children ++ [endLine name]) ++ crlf

def serializeEach : List Component → List Text
  | [] => []
  | c :: rest => rstrip (serialize c) :: serializeEach rest

end

mutual

/-- The lines of a component, with those of each property. -/
def written (lines : Property → List Text) : Component → List Text
  | .mk name props children =>
      beginLine name :: props.flatMap lines ++ writtenEach lines children ++ [endLine name]

def writtenEach (lines : Property → List Text) : List Component → List Text
  | [] => []
  | c :: rest => written lines c ++ writtenEach lines rest

end

mutual

/-- A component whose properties were read from lines of their own. -/
def reread (up : Upper) : Component → Component
  | .mk name props children =>
      .mk name (props.map fun p => (readLine up p.line).getD p) (rereadEach up children)

def rereadEach (up : Upper) : List Component → List Component
  | [] => []
  | c :: rest => reread up c :: rereadEach up rest

end

mutual

/-- The properties of a component and of those inside it. -/
def properties : Component → List Property
  | .mk _ props children => props ++ propertiesEach children

def propertiesEach : List Component → List Property
  | [] => []
  | c :: rest => properties c ++ propertiesEach rest

end

/-- Every parameter is written as it is. -/
def plain (c : Component) : Bool := (properties c).all Property.plainParams

/-! ## Sound components -/

/-- The name of a component that was read. -/
structure SoundName (up : Upper) (name : Text) : Prop where
  upper : up.text (strip name) = name
  unbroken : Unbroken name

/-- A component that can be read. -/
inductive Component.Sound (up : Upper) : Component → Prop
  | mk {name : Text} {props : List Property} {children : List Component}
      (hname : SoundName up name)
      (hprops : ∀ p ∈ props, p.Sound up)
      (hchildren : ∀ c ∈ children, Component.Sound up c) :
      Component.Sound up (.mk name props children)

section Sound

variable {up : Upper}

theorem SoundName.of_strip
    {value : Text}
    (h : Unbroken value) :
    SoundName up (up.text (strip value)) where
  upper := by
    rw [(stripped_strip value).text.strip, up.text_text]
  unbroken := by
    refine (h.mono fun c hc => ?_).text
    exact (List.dropWhile_sublist _).subset ((List.rdropWhile_prefix _ _).subset hc)

/-- All that was read is sound, open or not. -/
structure Reader.Sound (up : Upper) (r : Reader) : Prop where
  roots : ∀ c ∈ r.roots, c.Sound up
  stack : ∀ c ∈ r.stack, c.Sound up

theorem Component.Sound.addProp
    {c : Component} {p : Property}
    (h : c.Sound up)
    (hp : p.Sound up) :
    (c.addProp p).Sound up := by
  obtain @⟨name, props, children, hname, hprops, hchildren⟩ := h
  refine .mk hname (fun q hq => ?_) hchildren
  rcases List.mem_append.1 hq with hq | hq
  · exact hprops q hq
  · exact List.mem_singleton.1 hq ▸ hp

theorem Component.Sound.addChild
    {c child : Component}
    (h : c.Sound up)
    (hchild : child.Sound up) :
    (c.addChild child).Sound up := by
  obtain @⟨name, props, children, hname, hprops, hchildren⟩ := h
  refine .mk hname hprops fun d hd => ?_
  rcases List.mem_append.1 hd with hd | hd
  · exact hchildren d hd
  · exact List.mem_singleton.1 hd ▸ hchild

theorem Reader.Sound.close
    {r : Reader}
    (h : r.Sound up) :
    r.close.Sound up := by
  obtain ⟨roots, stack⟩ := r
  match stack with
  | [] => exact h
  | [c] =>
      refine ⟨fun d hd => ?_, fun d hd => absurd hd List.not_mem_nil⟩
      rcases List.mem_append.1 hd with hd | hd
      · exact h.roots d hd
      · exact List.mem_singleton.1 hd ▸ h.stack c List.mem_cons_self
  | c :: parent :: rest =>
      refine ⟨h.roots, fun d hd => ?_⟩
      have hparent := h.stack parent (List.mem_cons_of_mem _ List.mem_cons_self)
      rcases List.mem_cons.1 hd with rfl | hd
      · exact hparent.addChild (h.stack c List.mem_cons_self)
      · exact h.stack d (List.mem_cons_of_mem _ (List.mem_cons_of_mem _ hd))

/-- A line keeps the reader sound; one that starts with a blank can only be the first. -/
theorem Reader.Sound.readStep
    {r s : Reader} {line : Text}
    (h : r.Sound up)
    (hunbroken : Unbroken line)
    (hindent : r.stack ≠ [] → Unindented line)
    (hstep : readStep up r line = some s) :
    s.Sound up := by
  obtain ⟨p, hread, rfl⟩ := Option.map_eq_some_iff.1 hstep
  split
  · refine ⟨h.roots, fun c hc => ?_⟩
    rcases List.mem_cons.1 hc with rfl | hc
    · refine .mk (.of_strip ?_) (fun q hq => absurd hq List.not_mem_nil)
        fun d hd => absurd hd List.not_mem_nil
      exact unbroken_value hunbroken hread
    · exact h.stack c hc
  · split
    · exact h.close
    · rename_i hbegin hend
      rw [Reader.addProp]
      split
      · exact h
      · rename_i c rest hstack
        have hp := sound_readLine hunbroken
          (hindent (by rw [hstack]; exact List.cons_ne_nil _ _)) hread hbegin hend
        refine ⟨h.roots, fun d hd => ?_⟩
        rcases List.mem_cons.1 hd with rfl | hd
        · exact (h.stack c (by rw [hstack]; exact List.mem_cons_self)).addProp hp
        · exact h.stack d (by rw [hstack]; exact List.mem_cons_of_mem _ hd)

theorem Reader.Sound.foldlM
    {lines : List Text} {r s : Reader}
    (h : r.Sound up)
    (hlines : ∀ line ∈ lines, Unbroken line ∧ Unindented line)
    (hrun : lines.foldlM (EmailClient.readStep up) r = some s) :
    s.Sound up := by
  induction lines generalizing r with
  | nil => exact Option.some.inj hrun ▸ h
  | cons line lines ih =>
      obtain ⟨next, hstep, hrest⟩ := Option.bind_eq_some_iff.1 hrun
      have hline := hlines line List.mem_cons_self
      exact ih (h.readStep hline.1 (fun _ => hline.2) hstep)
        (fun other hother => hlines other (List.mem_cons_of_mem _ hother)) hrest

theorem Reader.Sound.finish
    {r : Reader}
    (h : r.Sound up) :
    ∀ c ∈ r.finish, c.Sound up := by
  have hclosed : ∀ n, (Reader.close^[n] r).Sound up := by
    intro n
    induction n with
    | zero => exact h
    | succ n ih =>
        rw [Function.iterate_succ_apply']
        exact ih.close
  exact (hclosed r.stack.length).roots

/-- Every component that is read is sound. -/
theorem sound_of_parse
    {text : Text} {roots : List Component}
    (h : parse up text = some roots) :
    ∀ c ∈ roots, c.Sound up := by
  obtain ⟨r, hrun, rfl⟩ := Option.map_eq_some_iff.1 h
  have hlines := lines_unfold text
  have hempty : Reader.Sound up ⟨[], []⟩ :=
    ⟨fun c hc => absurd hc List.not_mem_nil, fun c hc => absurd hc List.not_mem_nil⟩
  cases hunfold : unfold text with
  | nil =>
      rw [hunfold] at hrun
      exact (hempty.foldlM (fun _ h => absurd h List.not_mem_nil) hrun).finish
  | cons first rest =>
      rw [hunfold] at hrun hlines
      obtain ⟨next, hstep, hrest⟩ := Option.bind_eq_some_iff.1 hrun
      have hfirst := hempty.readStep (hlines.unbroken first (by simp))
        (fun hstack => absurd rfl hstack) hstep
      refine (hfirst.foldlM (fun line hline => ⟨?_, ?_⟩) hrest).finish
      · exact hlines.unbroken line (by simp [hline])
      · exact hlines.unindented line (by simpa using hline)

end Sound

/-! ## Reading what was written -/

section Writing

variable {up : Upper}

theorem intercalate_concat (sep last : Text) (parts : List Text) :
    sep.intercalate (parts ++ [last]) = (parts.flatMap fun part => part ++ sep) ++ last := by
  induction parts with
  | nil => simp
  | cons part parts ih =>
      rw [List.cons_append, List.intercalate_cons_of_ne_nil (by simp), ih, List.flatMap_cons]
      simp only [List.append_assoc]

/-- Only the line end behind a component is stripped. -/
theorem rstrip_append_crlf
    {text last : Text}
    (hne : last ≠ [])
    (h : Unbroken last) :
    rstrip (text ++ last ++ crlf) = text ++ last := by
  obtain rfl | ⟨init, c, rfl⟩ := List.eq_nil_or_concat' last
  · exact absurd rfl hne
  · have hc : c ≠ '\r' ∧ c ≠ '\n' :=
      ⟨fun heq => h.2 (by simp [heq]), fun heq => h.1 (by simp [heq])⟩
    have hcrlf : text ++ (init ++ [c]) ++ crlf = text ++ (init ++ [c]) ++ ['\r'] ++ ['\n'] := by
      simp [crlf]
    rw [rstrip, hcrlf, List.rdropWhile_concat_pos _ _ _ (by simp),
      List.rdropWhile_concat_pos _ _ _ (by simp), ← List.append_assoc,
      List.rdropWhile_concat_neg _ _ _ (by simp [hc.1, hc.2])]

theorem fold_append (line : Text) :
    fold line ++ crlf = (chunks line).flatMap fun piece => piece ++ crlf := by
  have hne : chunks line ≠ [] := by
    rw [chunks]
    split <;> exact List.cons_ne_nil _ _
  obtain hnil | ⟨init, last, hchunks⟩ := List.eq_nil_or_concat' (chunks line)
  · exact absurd hnil hne
  · rw [fold, hchunks, intercalate_concat, List.flatMap_append, List.append_assoc]
    simp

theorem writtenEach_eq (lines : Property → List Text) (children : List Component) :
    writtenEach lines children = children.flatMap (written lines) := by
  induction children with
  | nil => rfl
  | cons c rest ih => rw [writtenEach, ih, List.flatMap_cons]

theorem rereadEach_eq (children : List Component) :
    rereadEach up children = children.map (reread up) := by
  induction children with
  | nil => rfl
  | cons c rest ih => rw [rereadEach, ih, List.map_cons]

theorem propertiesEach_eq (children : List Component) :
    propertiesEach children = children.flatMap properties := by
  induction children with
  | nil => rfl
  | cons c rest ih => rw [propertiesEach, ih, List.flatMap_cons]

theorem serializeEach_eq (children : List Component) :
    serializeEach children = children.map fun c => rstrip (serialize c) := by
  induction children with
  | nil => rfl
  | cons c rest ih => rw [serializeEach, ih, List.map_cons]

theorem rstrip_serialize
    {c : Component}
    (h : c.Sound up) :
    rstrip (serialize c) ++ crlf = serialize c := by
  obtain @⟨name, props, children, hname, hprops, hchildren⟩ := h
  have hend : Unbroken (endLine name) := by
    constructor
    · exact fun hmem => (List.mem_append.1 hmem).elim (by decide) fun hmem =>
        hname.unbroken.1 ((List.mem_cons.1 hmem).resolve_left (by decide))
    · exact fun hmem => (List.mem_append.1 hmem).elim (by decide) fun hmem =>
        hname.unbroken.2 ((List.mem_cons.1 hmem).resolve_left (by decide))
  have hne : endLine name ≠ [] := by simp [endLine]
  rw [serialize, intercalate_concat, rstrip_append_crlf hne hend]

/-- The text of a component is its pieces, with a line end behind each. -/
theorem serialize_eq
    {c : Component}
    (h : c.Sound up) :
    serialize c = (written (fun p => chunks p.line) c).flatMap fun piece => piece ++ crlf := by
  induction h with
  | @mk name props children hname hprops hchildren ih =>
      have hprops : ((props.map fun p => fold p.line).flatMap fun part => part ++ crlf) =
          (props.flatMap fun p => chunks p.line).flatMap fun piece => piece ++ crlf := by
        rw [List.flatMap_map, List.flatMap_assoc]
        exact List.flatMap_congr fun p _ => fold_append p.line
      have hchildren : ((serializeEach children).flatMap fun part => part ++ crlf) =
          (writtenEach (fun p => chunks p.line) children).flatMap fun piece => piece ++ crlf := by
        rw [serializeEach_eq, writtenEach_eq, List.flatMap_map, List.flatMap_assoc]
        refine List.flatMap_congr fun c hc => ?_
        rw [← ih c hc]
        exact rstrip_serialize (hchildren c hc)
      rw [serialize, written, intercalate_concat]
      simp only [List.flatMap_append, List.flatMap_cons, List.flatMap_nil, hprops, hchildren,
        List.append_assoc, List.append_nil, List.cons_append]

/-! ### Lines -/

theorem mem_paramField
    {key value : Text} {c : Char}
    (h : c ∈ paramField key value) :
    c ∈ key ∨ c = '=' ∨ c = '"' ∨ c ∈ value := by
  rw [paramField] at h
  split at h
  · exact .inl h
  · rcases List.mem_append.1 h with h | h
    · exact .inl h
    · rcases List.mem_cons.1 h with h | h
      · exact .inr (.inl h)
      · rw [paramText] at h
        split at h
        · exact .inr (.inr (.inr h))
        · simp only [List.mem_cons, List.mem_append, List.not_mem_nil, or_false] at h
          rcases h with h | h | h
          · exact .inr (.inr (.inl h))
          · exact .inr (.inr (.inr h))
          · exact .inr (.inr (.inl h))

theorem Property.Sound.unbroken_line
    {p : Property}
    (h : p.Sound up) :
    Unbroken p.line := by
  have hline : ∀ c, c ∈ p.line → c = '\n' ∨ c = '\r' → False := by
    intro c hc hbreak
    have hmarks : c ≠ ';' ∧ c ≠ ':' ∧ c ≠ '=' ∧ c ≠ '"' := by
      rcases hbreak with rfl | rfl <;> decide
    have hfree : ∀ {t : Text}, Unbroken t → c ∉ t := by
      intro t ht hmem
      rcases hbreak with rfl | rfl
      · exact ht.1 hmem
      · exact ht.2 hmem
    simp only [Property.line, headText, List.mem_append, List.mem_flatMap, List.mem_cons] at hc
    rcases hc with (hname | ⟨param, hparam, hsemicolon | hfield⟩) | hcolon | hvalue
    · exact hfree h.unbroken.1 hname
    · exact hmarks.1 hsemicolon
    · have hunbroken := (h.params param hparam).unbroken
      rcases mem_paramField hfield with hkey | hequals | hquote | hvalue
      · exact hfree hunbroken.1 hkey
      · exact hmarks.2.2.1 hequals
      · exact hmarks.2.2.2 hquote
      · exact hfree hunbroken.2 hvalue
    · exact hmarks.2.1 hcolon
    · exact hfree h.unbroken.2 hvalue
  exact ⟨fun hmem => hline _ hmem (.inl rfl), fun hmem => hline _ hmem (.inr rfl)⟩

theorem Property.Sound.unindented_line
    {p : Property}
    (h : p.Sound up) :
    p.line ≠ [] ∧ Unindented p.line := by
  refine ⟨by simp [Property.line], fun c hc => ?_⟩
  cases hname : p.name with
  | cons d rest =>
      rw [Property.line, headText, hname] at hc
      have hd : d = c := Option.some.inj hc
      exact h.unindented c (by rw [hname, hd]; rfl)
  | nil =>
      rw [Property.line, headText, hname] at hc
      cases hentries : p.params.entries with
      | nil =>
          rw [hentries] at hc
          have hd : ':' = c := Option.some.inj hc
          exact hd ▸ ⟨by decide, by decide⟩
      | cons param params =>
          rw [hentries] at hc
          have hd : ';' = c := Option.some.inj hc
          exact hd ▸ ⟨by decide, by decide⟩

theorem unbroken_tagLine
    {tag name : Text}
    (htag : Unbroken tag)
    (hname : Unbroken name) :
    Unbroken (tag ++ ':' :: name) := by
  constructor
  · exact fun hmem => (List.mem_append.1 hmem).elim htag.1 fun hmem =>
      hname.1 ((List.mem_cons.1 hmem).resolve_left (by decide))
  · exact fun hmem => (List.mem_append.1 hmem).elim htag.2 fun hmem =>
      hname.2 ((List.mem_cons.1 hmem).resolve_left (by decide))

theorem unbroken_of_mem_written
    {c : Component} {piece : Text}
    (h : c.Sound up)
    (hpiece : piece ∈ written (fun p => chunks p.line) c) :
    Unbroken piece := by
  induction h with
  | @mk name props children hname hprops hchildren ih =>
      rw [written, writtenEach_eq] at hpiece
      simp only [List.mem_append, List.mem_cons, List.mem_flatMap, List.not_mem_nil,
        or_false] at hpiece
      rcases hpiece with ((rfl | ⟨p, hp, hpiece⟩) | ⟨c, hc, hpiece⟩) | rfl
      · exact unbroken_tagLine ⟨by decide, by decide⟩ hname.unbroken
      · exact unbroken_of_mem_chunks (hprops p hp).unbroken_line hpiece
      · exact ih c hc hpiece
      · exact unbroken_tagLine ⟨by decide, by decide⟩ hname.unbroken

theorem foldl_unfoldStep_flatMap
    {A : Type} {f g : A → List Text} {items : List A}
    (h : ∀ item ∈ items, ∀ before,
      (f item).foldl unfoldStep before = (g item).reverse ++ before)
    (before : List Text) :
    (items.flatMap f).foldl unfoldStep before = (items.flatMap g).reverse ++ before := by
  induction items generalizing before with
  | nil => rfl
  | cons item items ih =>
      have hrest := ih fun other hother => h other (List.mem_cons_of_mem _ hother)
      rw [List.flatMap_cons, List.flatMap_cons, List.foldl_append,
        h item List.mem_cons_self, hrest, List.reverse_append, List.append_assoc]

/-- The lines of a component, each with its pieces put together. -/
theorem foldl_unfoldStep_written
    {c : Component}
    (h : c.Sound up)
    (before : List Text) :
    (written (fun p => chunks p.line) c).foldl unfoldStep before =
      (written (fun p => [p.line]) c).reverse ++ before := by
  induction h generalizing before with
  | @mk name props children hname hprops hchildren ih =>
      have hbegin : ∀ before, unfoldStep before (beginLine name) = beginLine name :: before :=
        unfoldStep_of_unindented (by simp [beginLine]) fun c hc => by
          have hc : 'B' = c := Option.some.inj hc
          exact hc ▸ ⟨by decide, by decide⟩
      have hend : ∀ before, unfoldStep before (endLine name) = endLine name :: before :=
        unfoldStep_of_unindented (by simp [endLine]) fun c hc => by
          have hc : 'E' = c := Option.some.inj hc
          exact hc ▸ ⟨by decide, by decide⟩
      have hlines : ∀ before,
          (props.flatMap fun p => chunks p.line).foldl unfoldStep before =
            (props.flatMap fun p => [p.line]).reverse ++ before :=
        foldl_unfoldStep_flatMap fun p hp before => by
          have hp := (hprops p hp).unindented_line
          exact foldl_unfoldStep_chunks hp.1 hp.2 before
      have hinner := foldl_unfoldStep_flatMap ih
      simp only [written, writtenEach_eq, List.foldl_append, List.foldl_cons, List.foldl_nil,
        hbegin, hend, hlines, hinner, List.reverse_append, List.reverse_cons, List.reverse_nil,
        List.nil_append, List.cons_append, List.append_assoc]

theorem unfold_serialize
    {c : Component}
    (h : c.Sound up) :
    unfold (serialize c) = written (fun p => [p.line]) c := by
  rw [serialize_eq h, unfold_written fun piece hpiece => unbroken_of_mem_written h hpiece,
    foldl_unfoldStep_written h, List.append_nil, List.reverse_reverse]

/-! ### A run over the lines -/

/-- A line whose head has no parameters. -/
theorem readLine_tag
    {tag value : Text}
    (htag : Piece tag)
    (hupper : up.text tag = tag) :
    readLine up (tag ++ ':' :: value) = some ⟨tag, ⟨[], List.nodup_nil⟩, value⟩ := by
  have hmark : ':' ≠ '"' := by decide
  rw [readLine, splitNameValue, cut_append hmark htag.colon htag.closed, Option.map_some]
  simp only [splitParams, split_of_bare htag.semicolon, List.headD_cons, List.tail_cons,
    List.foldl_nil, hupper]

theorem Upper.text_eq_self
    {t : Text}
    (h : ∀ c ∈ t, c.toNat < 128 ∧ c.toUpper = c) :
    up.text t = t := by
  induction t with
  | nil => rfl
  | cons c t ih =>
      obtain ⟨hascii, hsame⟩ := h c List.mem_cons_self
      rw [up.text_cons, up.ascii c hascii, hsame, ih fun d hd => h d (List.mem_cons_of_mem _ hd)]
      rfl

theorem piece_of_not_mem
    {tag : Text}
    (h : '"' ∉ tag ∧ ';' ∉ tag ∧ ':' ∉ tag) :
    Piece tag :=
  ⟨openAfter_of_not_mem h.1, bare_of_not_mem h.2.1, bare_of_not_mem h.2.2⟩

theorem readStep_beginLine
    {name : Text}
    (h : SoundName up name)
    (r : Reader) :
    readStep up r (beginLine name) = some (r.open (.mk name [] [])) := by
  have hupper : up.text beginName = beginName :=
    up.text_eq_self (forall_mem_of_all (by decide))
  rw [readStep, beginLine, readLine_tag (piece_of_not_mem (by decide)) hupper, Option.map_some,
    if_pos rfl, h.upper]

theorem readStep_endLine (name : Text) (r : Reader) :
    readStep up r (endLine name) = some r.close := by
  have hupper : up.text endName = endName :=
    up.text_eq_self (forall_mem_of_all (by decide))
  rw [readStep, endLine, readLine_tag (piece_of_not_mem (by decide)) hupper, Option.map_some,
    if_neg (show endName ≠ beginName by decide), if_pos rfl]

theorem readStep_line
    {p : Property}
    (h : p.Sound up)
    (r : Reader) :
    readStep up r p.line = some (r.addProp ((readLine up p.line).getD p)) := by
  obtain ⟨q, hread, hname, -⟩ := readLine_line h
  rw [readStep, hread, Option.map_some, hname, if_neg h.ne_begin, if_neg h.ne_end,
    Option.getD_some]

theorem foldlM_readStep_props
    {props : List Property}
    (h : ∀ p ∈ props, p.Sound up)
    (r : Reader) (name : Text) (before : List Property) (children : List Component) :
    (props.flatMap fun p => [p.line]).foldlM (readStep up) (r.open (.mk name before children)) =
      some (r.open (.mk name
        (before ++ props.map fun p => (readLine up p.line).getD p) children)) := by
  induction props generalizing before with
  | nil => simp
  | cons p props ih =>
      have hrest := ih fun q hq => h q (List.mem_cons_of_mem _ hq)
      rw [List.flatMap_cons, List.singleton_append, List.foldlM_cons,
        readStep_line (h p List.mem_cons_self)]
      refine (hrest (before ++ [(readLine up p.line).getD p])).trans ?_
      rw [List.map_cons, List.append_assoc, List.singleton_append]

theorem foldlM_readStep_children
    {children : List Component}
    (h : ∀ c ∈ children, ∀ r : Reader,
      (written (fun p => [p.line]) c).foldlM (readStep up) r =
        some (r.open (reread up c)).close)
    (r : Reader) (name : Text) (props : List Property) (before : List Component) :
    (children.flatMap (written fun p => [p.line])).foldlM (readStep up)
        (r.open (.mk name props before)) =
      some (r.open (.mk name props (before ++ children.map (reread up)))) := by
  induction children generalizing before with
  | nil => simp
  | cons c children ih =>
      have hrest := ih fun d hd => h d (List.mem_cons_of_mem _ hd)
      rw [List.flatMap_cons, List.foldlM_append, h c List.mem_cons_self]
      refine (hrest (before ++ [reread up c])).trans ?_
      rw [List.map_cons, List.append_assoc, List.singleton_append]

/-- Reading the lines of a component puts it, read again, where the reader stands. -/
theorem foldlM_readStep_written
    {c : Component}
    (h : c.Sound up)
    (r : Reader) :
    (written (fun p => [p.line]) c).foldlM (readStep up) r =
      some (r.open (reread up c)).close := by
  induction h generalizing r with
  | @mk name props children hname hprops hchildren ih =>
      rw [written, writtenEach_eq, reread, rereadEach_eq, List.cons_append, List.cons_append,
        List.foldlM_cons, readStep_beginLine hname, Option.bind_eq_bind, Option.bind_some,
        List.foldlM_append, List.foldlM_append, foldlM_readStep_props hprops,
        Option.bind_eq_bind, Option.bind_some, List.nil_append,
        foldlM_readStep_children ih, Option.bind_some, List.nil_append, List.foldlM_cons,
        readStep_endLine]
      rfl

theorem parse_serialize
    {c : Component}
    (h : c.Sound up) :
    parse up (serialize c) = some [reread up c] := by
  rw [parse, unfold_serialize h, foldlM_readStep_written h]
  rfl

theorem map_eq_self_iff
    {A : Type} {f : A → A} {items : List A} :
    items.map f = items ↔ ∀ item ∈ items, f item = item := by
  induction items with
  | nil => simp
  | cons item items ih => rw [List.map_cons, List.cons.injEq, ih, List.forall_mem_cons]

theorem reread_eq_iff
    {c : Component}
    (h : c.Sound up) :
    reread up c = c ↔ plain c = true := by
  induction h with
  | @mk name props children hname hprops hchildren ih =>
      have hown : (props.map fun p => (readLine up p.line).getD p) = props ↔
          props.all Property.plainParams = true := by
        rw [map_eq_self_iff, List.all_eq_true]
        refine forall₂_congr fun p hp => ?_
        obtain ⟨q, hread, -, hsame⟩ := readLine_line (hprops p hp)
        rw [hread, Option.getD_some, hsame]
      have hinner : children.map (reread up) = children ↔
          (children.flatMap properties).all Property.plainParams = true := by
        rw [map_eq_self_iff, List.all_flatMap, List.all_eq_true]
        exact forall₂_congr ih
      rw [reread, rereadEach_eq, Component.mk.injEq, hown, hinner, plain, properties,
        propertiesEach_eq, List.all_append, Bool.and_eq_true]
      exact and_iff_right rfl

end Writing

/-! ## Escapes -/

/-- What a character becomes. -/
def escapeChar (c : Char) : Text :=
  if c = '\\' then ['\\', '\\'] else if c = ';' then ['\\', ';']
  else if c = ',' then ['\\', ','] else if c = '\n' then ['\\', 'n'] else [c]

theorem escapeText_eq (value : Text) : escapeText value = value.flatMap escapeChar := by
  simp only [escapeText, replaceChar, List.flatMap_assoc]
  refine List.flatMap_congr fun c _ => ?_
  by_cases hbackslash : c = '\\'
  · subst hbackslash
    decide
  · by_cases hsemicolon : c = ';'
    · subst hsemicolon
      decide
    · by_cases hcomma : c = ','
      · subst hcomma
        decide
      · simp [escapeChar, hbackslash, hsemicolon, hcomma]

theorem unescapeText_cons
    {c : Char}
    (h : c ≠ '\\')
    (rest : Text) :
    unescapeText (c :: rest) = c :: unescapeText rest := by
  cases rest with
  | nil => rfl
  | cons d rest => rw [unescapeText, if_neg h]

theorem unescapeText_escapeText (value : Text) : unescapeText (escapeText value) = value := by
  rw [escapeText_eq]
  induction value with
  | nil => rfl
  | cons c value ih =>
      rw [List.flatMap_cons, escapeChar]
      split
      · rename_i hc
        simp [unescapeText, ih, hc]
      · split
        · rename_i hc
          simp [unescapeText, ih, hc]
        · split
          · rename_i hc
            simp [unescapeText, ih, hc]
          · split
            · rename_i hc
              simp [unescapeText, ih, hc]
            · rename_i hbackslash _ _ _
              rw [List.singleton_append, unescapeText_cons hbackslash, ih]

/-- Reading undoes writing exactly on the sound components that are written as they are. -/
theorem parse_serialize_iff {up : Upper} {c : Component} :
    parse up (serialize c) = some [c] ↔ c.Sound up ∧ plain c = true := by
  constructor
  · intro h
    have hsound := sound_of_parse h c (List.mem_singleton_self c)
    rw [parse_serialize hsound, Option.some.injEq, List.cons.injEq, reread_eq_iff hsound] at h
    exact ⟨hsound, h.1⟩
  · rintro ⟨hsound, hplain⟩
    rw [parse_serialize hsound, (reread_eq_iff hsound).2 hplain]

/-- A component that was read comes back from its own text exactly if no parameter of it has to be
put in quotes; escapes are always undone. -/
theorem reparsed_iff
    {up : Upper} {text : Text} {roots : List Component} {c : Component}
    (h : parse up text = some roots)
    (hc : c ∈ roots) :
    (parse up (serialize c) = some [c] ∧ ∀ value, unescapeText (escapeText value) = value) ↔
      plain c = true := by
  have hsound := sound_of_parse h c hc
  rw [parse_serialize hsound, Option.some.injEq, List.cons.injEq, reread_eq_iff hsound]
  exact ⟨fun h => h.1.1, fun h => ⟨⟨h, rfl⟩, unescapeText_escapeText⟩⟩

/-- Upper case of ASCII letters. -/
def asciiUpper : Upper where
  char c := [c.toUpper]
  ascii := fun c _ => rfl
  foreign := by
    intro c hc d hd hsmall
    have hd : d = c.toUpper := List.mem_singleton.1 hd
    by_cases hsame : c.toUpper = c
    · rw [hd, hsame] at hsmall
      omega
    · rw [hd, isUpper_toUpper hsame]
  again := by
    intro c d hd
    have hd : d = c.toUpper := List.mem_singleton.1 hd
    by_cases hsame : c.toUpper = c
    · rw [hd, hsame, hsame]
    · rw [hd, toUpper_of_isUpper (isUpper_toUpper hsame)]
  ne_nil := fun c => List.cons_ne_nil _ _
  unspaced := by
    intro c hc d hd
    have hd : d = c.toUpper := List.mem_singleton.1 hd
    by_cases hsame : c.toUpper = c
    · rw [hd, hsame, hc]
    · rw [hd, isSpace_of_isUpper (isUpper_toUpper hsame)]

def imageText : Text := "BEGIN:A\nIMAGE;DISPLAY=BADGE,FULLSIZE:u\nEND:A".toList

def image : Component :=
  .mk "A".toList
    [⟨"IMAGE".toList, ⟨[("DISPLAY".toList, "BADGE,FULLSIZE".toList)], by decide⟩, "u".toList⟩] []

theorem parse_imageText : parse asciiUpper imageText = some [image] := rfl

/-- Two values behind a comma come back as one in quotes. -/
theorem not_reparsed_image :
    ∃ text roots c, parse asciiUpper text = some roots ∧ c ∈ roots ∧
      parse asciiUpper (serialize c) ≠ some [c] := by
  refine ⟨imageText, [image], image, parse_imageText, List.mem_singleton_self _, ?_⟩
  have hsound := sound_of_parse parse_imageText image (List.mem_singleton_self _)
  rw [parse_serialize hsound, Ne, Option.some.injEq, List.cons.injEq, reread_eq_iff hsound]
  exact fun h => Bool.false_ne_true h.1

def plainText : Text := "BEGIN:A\nIMAGE;DISPLAY=BADGE:u\nEND:A".toList

def plainImage : Component :=
  .mk "A".toList
    [⟨"IMAGE".toList, ⟨[("DISPLAY".toList, "BADGE".toList)], by decide⟩, "u".toList⟩] []

theorem reparsed_plainImage :
    parse asciiUpper (serialize plainImage) = some [plainImage] := by
  have hparse : parse asciiUpper plainText = some [plainImage] := rfl
  exact ((reparsed_iff hparse (List.mem_singleton_self _)).2 rfl).1

end EmailClient
end Vesta
