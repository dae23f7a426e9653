import Mathlib.Data.List.Basic
import Mathlib.Data.List.Infix
import Mathlib.Logic.Function.Basic

/-!
# File trees with symbolic links

A location is the list of the names on the way down from the root, and a tree says what
stands at each.  A path is a list of components that is walked: a directory is entered, a
symbolic link goes on with its target, as long as no more than a number of links are
followed.

`walk` ends at a solid location, one with directories above it and no link at it; spelled
out, such a location is a path of which each component leads one step down.  A tree that
only grows keeps every walk.
-/

namespace Vesta
namespace Lib
namespace FileTree

abbrev Bytes := List UInt8

def slash : UInt8 := 47

def dot : Bytes := [46]

def dotdot : Bytes := [46, 46]

/-- What an entry of a directory can be called. -/
def IsName (c : Bytes) : Prop := c ≠ [] ∧ c ≠ dot ∧ c ≠ dotdot ∧ slash ∉ c

instance : DecidablePred IsName := fun c =>
  inferInstanceAs (Decidable (c ≠ [] ∧ c ≠ dot ∧ c ≠ dotdot ∧ slash ∉ c))

abbrev Name := {c : Bytes // IsName c}

abbrev Location := List Name

/-- What stands at a location; a directory has the size that its file system gives it. -/
inductive Node
  | file (mode : Nat) (content : Bytes)
  | dir (mode size : Nat)
  | link (target : Bytes)
deriving DecidableEq

abbrev Tree := Location → Option Node

def isDir (tree : Tree) (here : Location) : Bool :=
  match tree here with
  | some (.dir _ _) => true
  | _ => false

/-! ## Paths -/

def components (path : Bytes) : List Bytes := path.splitOn slash

def spell (loc : Location) : Bytes := loc.flatMap fun name => slash :: name.val

/-- The canonical path of a location. -/
def text (loc : Location) : Bytes := if loc = [] then [slash] else spell loc

/-- The location that a canonical path spells. -/
def location (path : Bytes) : Location :=
  (components path).filterMap fun c => if h : IsName c then some ⟨c, h⟩ else none

/-! ## Walks -/

/-- How far the components of a path lead without following a link. -/
inductive Progress
  | done (here : Location)
  | failed
  | followed (here : Location) (target : Bytes) (rest : List Bytes)
deriving DecidableEq

def advance (tree : Tree) : Location → List Bytes → Progress
  | here, [] => .done here
  | here, c :: cs =>
      if isDir tree here then
        if h : IsName c then
          match tree (here ++ [⟨c, h⟩]) with
          | none => .failed
          | some (.link target) => .followed here target cs
          | some _ => advance tree (here ++ [⟨c, h⟩]) cs
        else if c = dotdot then advance tree here.dropLast cs
        else advance tree here cs
      else .failed

/-- Where a link's target is looked up from. -/
def base (here : Location) (target : Bytes) : Location :=
  if target.head? = some slash then [] else here

/-- Walk a path, following at most so many links. -/
def walk (tree : Tree) : Nat → Location → List Bytes → Option Location
  | 0, here, cs =>
      match advance tree here cs with
      | .done loc => some loc
      | _ => none
  | links + 1, here, cs =>
      match advance tree here cs with
      | .done loc => some loc
      | .failed => none
      | .followed here target rest => walk tree links (base here target) (components target ++ rest)

/-- The entry that an absolute path leads to. -/
def resolve (tree : Tree) (links : Nat) (path : Bytes) : Option Location :=
  walk tree links [] (components path)

/-- The location that an absolute path names, a link at its end not followed. -/
def place (tree : Tree) (links : Nat) (path : Bytes) : Option Location :=
  match (components path).getLast? with
  | none => none
  | some last =>
      if h : IsName last then
        (walk tree links [] (components path).dropLast).bind fun here =>
          if isDir tree here then some (here ++ [⟨last, h⟩]) else none
      else resolve tree links path

/-- Put a node at a location. -/
def set (tree : Tree) (loc : Location) (node : Node) : Tree :=
  Function.update tree loc (some node)

def remove (tree : Tree) (loc : Location) : Tree :=
  Function.update tree loc none

/-- One tree has everything that another has. -/
def Grows (tree grown : Tree) : Prop :=
  ∀ loc node, tree loc = some node → grown loc = some node

/-- A location with directories above it and no link at it. -/
structure Solid (tree : Tree) (loc : Location) : Prop where
  above : ∀ parent, parent <+: loc → parent ≠ loc → isDir tree parent = true
  here : loc = [] ∨ ∃ node, tree loc = some node ∧ ∀ target, node ≠ .link target

/-! ## Spelling -/

section Spelling

variable {loc other : Location}

theorem splitOn_append_spell
    (first : Name) :
    (first.val ++ spell loc).splitOn slash = first.val :: loc.map Subtype.val := by
  induction loc generalizing first with
  | nil =>
      rw [spell, List.flatMap_nil, List.append_nil]
      exact List.splitOn_eq_singleton first.property.2.2.2
  | cons next loc ih =>
      have hspell : spell (next :: loc) = slash :: (next.val ++ spell loc) := by simp [spell]
      rw [hspell, List.splitOn_append_cons_self, ih,
        List.splitOn_eq_singleton first.property.2.2.2]
      rfl

theorem components_spell : components (spell loc) = [] :: loc.map Subtype.val := by
  cases loc with
  | nil => rfl
  | cons first loc =>
      have hspell : spell (first :: loc) = [] ++ slash :: (first.val ++ spell loc) := by
        simp [spell]
      rw [components, hspell, List.splitOn_append_cons_self, splitOn_append_spell]
      rfl

theorem components_append_slash (path more : Bytes) :
    components (path ++ slash :: more) = components path ++ components more :=
  List.splitOn_append_cons_self path more

theorem text_of_ne_nil (h : loc ≠ []) : text loc = spell loc := if_neg h

theorem spell_append : spell (loc ++ other) = spell loc ++ spell other :=
  List.flatMap_append

end Spelling

/-! ## Where walks end -/

section Walks

variable {tree grown : Tree}
variable {here loc : Location}
variable {c : Bytes}
variable {cs : List Bytes}
variable {links : Nat}

theorem advance_name
    (hdir : isDir tree here = true)
    (hname : IsName c)
    {node : Node}
    (hnode : tree (here ++ [⟨c, hname⟩]) = some node)
    (hlink : ∀ target, node ≠ .link target) :
    advance tree here (c :: cs) = advance tree (here ++ [⟨c, hname⟩]) cs := by
  rw [advance, if_pos hdir, dif_pos hname, hnode]
  cases node with
  | file | dir => rfl
  | link target => exact absurd rfl (hlink target)

theorem advance_dot
    (hdir : isDir tree here = true)
    (hname : ¬ IsName c)
    (hdots : c ≠ dotdot) :
    advance tree here (c :: cs) = advance tree here cs := by
  rw [advance, if_pos hdir, dif_neg hname, if_neg hdots]

theorem Solid.dropLast
    (h : Solid tree here) :
    Solid tree here.dropLast := by
  rcases List.eq_nil_or_concat here with rfl | ⟨parent, last, rfl⟩
  · exact h
  · rw [List.concat_eq_append] at h ⊢
    rw [List.dropLast_concat]
    have hparent : isDir tree parent = true :=
      h.above parent (List.prefix_append _ _) (by simp)
    refine ⟨fun above habove hne => ?_, .inr ?_⟩
    · refine h.above above (habove.trans (List.prefix_append _ _)) fun heq => ?_
      have hle := habove.length_le
      rw [heq, List.length_append, List.length_singleton] at hle
      exact Nat.not_succ_le_self _ hle
    · rw [isDir] at hparent
      split at hparent
      · rename_i mode size hnode
        exact ⟨.dir mode size, hnode, fun _ heq => nomatch heq⟩
      · cases hparent

theorem Solid.push
    (h : Solid tree here)
    (hdir : isDir tree here = true)
    {name : Name} {node : Node}
    (hnode : tree (here ++ [name]) = some node)
    (hlink : ∀ target, node ≠ .link target) :
    Solid tree (here ++ [name]) := by
  refine ⟨fun parent hparent hne => ?_, .inr ⟨node, hnode, hlink⟩⟩
  rcases List.prefix_concat_iff.1 hparent with heq | hinner
  · exact absurd heq hne
  · by_cases heq : parent = here
    · rw [heq]
      exact hdir
    · exact h.above parent hinner heq

/-- Going on from a solid location leads to a solid one, or to a link in one. -/
theorem advance_solid
    (h : Solid tree here) :
    (∀ loc, advance tree here cs = .done loc → Solid tree loc) ∧
      ∀ at' target rest, advance tree here cs = .followed at' target rest → Solid tree at' := by
  induction cs generalizing here with
  | nil =>
      refine ⟨fun loc hdone => ?_, fun _ _ _ hfollowed => nomatch hfollowed⟩
      obtain rfl : here = loc := by simpa [advance] using hdone
      exact h
  | cons c cs ih =>
      by_cases hdir : isDir tree here = true
      · by_cases hname : IsName c
        · cases hnode : tree (here ++ [⟨c, hname⟩]) with
          | none =>
              have hfailed : advance tree here (c :: cs) = .failed := by
                rw [advance, if_pos hdir, dif_pos hname, hnode]
              rw [hfailed]
              exact ⟨fun _ heq => (nomatch heq), fun _ _ _ heq => (nomatch heq)⟩
          | some node =>
              by_cases hlink : ∃ target, node = .link target
              · obtain ⟨target, rfl⟩ := hlink
                have hfollowed : advance tree here (c :: cs) = .followed here target cs := by
                  rw [advance, if_pos hdir, dif_pos hname, hnode]
                rw [hfollowed]
                refine ⟨fun _ heq => (nomatch heq), fun at' target' rest heq => ?_⟩
                obtain ⟨rfl, -, -⟩ := Progress.followed.inj heq
                exact h
              · have hnot : ∀ target, node ≠ .link target := fun target heq => hlink ⟨target, heq⟩
                rw [advance_name hdir hname hnode hnot]
                exact ih (h.push hdir hnode hnot)
        · by_cases hdots : c = dotdot
          · have hup : advance tree here (c :: cs) = advance tree here.dropLast cs := by
              rw [advance, if_pos hdir, dif_neg hname, if_pos hdots]
            rw [hup]
            exact ih h.dropLast
          · rw [advance_dot hdir hname hdots]
            exact ih h
      · have hfailed : advance tree here (c :: cs) = .failed := by
          rw [advance, if_neg hdir]
        rw [hfailed]
        exact ⟨fun _ heq => (nomatch heq), fun _ _ _ heq => (nomatch heq)⟩

theorem solid_root : Solid tree [] :=
  ⟨fun _ hparent hne => absurd (List.prefix_nil.1 hparent) hne, .inl rfl⟩

theorem Solid.base
    (h : Solid tree here)
    (target : Bytes) :
    Solid tree (base here target) := by
  rw [FileTree.base]
  split
  · exact solid_root
  · exact h

theorem walk_solid
    (h : Solid tree here)
    (hwalk : walk tree links here cs = some loc) :
    Solid tree loc := by
  induction links generalizing here cs with
  | zero =>
      rw [walk] at hwalk
      split at hwalk
      · rename_i found hdone
        obtain rfl := Option.some.inj hwalk
        exact (advance_solid h).1 _ hdone
      · cases hwalk
  | succ links ih =>
      rw [walk] at hwalk
      split at hwalk
      · rename_i found hdone
        obtain rfl := Option.some.inj hwalk
        exact (advance_solid h).1 _ hdone
      · cases hwalk
      · rename_i at' target rest hfollowed
        exact ih (((advance_solid h).2 _ _ _ hfollowed).base target) hwalk

theorem resolve_solid
    {path : Bytes}
    (h : resolve tree links path = some loc) :
    Solid tree loc :=
  walk_solid solid_root h

theorem walk_of_done
    (h : advance tree here cs = .done loc) :
    walk tree links here cs = some loc := by
  cases links with
  | zero => rw [walk, h]
  | succ links => rw [walk, h]

/-- Down the names of a solid location no link is met. -/
theorem Solid.advance
    (h : Solid tree loc)
    {rest : Location}
    (hloc : here ++ rest = loc) :
    advance tree here (rest.map Subtype.val) = .done loc := by
  induction rest generalizing here with
  | nil =>
      rw [List.append_nil] at hloc
      rw [hloc]
      rfl
  | cons name rest ih =>
      have hloc' : here ++ [name] ++ rest = loc := by simpa using hloc
      have hdir : isDir tree here = true := by
        refine h.above here ⟨name :: rest, hloc⟩ fun heq => ?_
        rw [heq] at hloc
        simp at hloc
      obtain ⟨node, hnode, hlink⟩ :
          ∃ node, tree (here ++ [name]) = some node ∧ ∀ target, node ≠ .link target := by
        cases rest with
        | nil =>
            rw [List.append_nil] at hloc'
            rcases h.here with hnil | hhere
            · rw [hnil] at hloc'
              simp at hloc'
            · rwa [hloc']
        | cons next rest =>
            have hnext : isDir tree (here ++ [name]) = true := by
              refine h.above _ ⟨next :: rest, hloc'⟩ fun heq => ?_
              rw [heq] at hloc'
              simp at hloc'
            rw [isDir] at hnext
            split at hnext
            · rename_i mode size hnode
              exact ⟨.dir mode size, hnode, fun _ heq => nomatch heq⟩
            · cases hnext
      rw [List.map_cons, advance_name hdir name.property hnode hlink]
      exact ih hloc'

/-- The canonical path of a solid location leads to it. -/
theorem Solid.resolve_spell
    (h : Solid tree loc)
    (hne : loc ≠ []) :
    resolve tree links (spell loc) = some loc := by
  have hroot : isDir tree [] = true := h.above [] List.nil_prefix hne.symm
  have hadvance : FileTree.advance tree [] ([] :: loc.map Subtype.val) = .done loc := by
    rw [advance_dot hroot (fun h => h.1 rfl) (by decide)]
    exact h.advance rfl
  rw [resolve, components_spell]
  exact walk_of_done hadvance

theorem Solid.place_spell
    (h : Solid tree loc)
    (hne : loc ≠ []) :
    place tree links (spell loc) = some loc := by
  rcases List.eq_nil_or_concat loc with hnil | ⟨parent, last, heq⟩
  · exact absurd hnil hne
  rw [List.concat_eq_append] at heq
  have hroot : isDir tree [] = true := h.above [] List.nil_prefix hne.symm
  have hparent : isDir tree parent = true :=
    h.above parent ⟨[last], heq.symm⟩ (by rw [heq]; simp)
  have hsolid : Solid tree parent := by
    have hdrop := h.dropLast
    rwa [heq, List.dropLast_concat] at hdrop
  have hwalk : walk tree links [] ([] :: parent.map Subtype.val) = some parent := by
    apply walk_of_done
    rw [advance_dot hroot (fun h => h.1 rfl) (by decide)]
    exact hsolid.advance rfl
  have hlast : (components (spell loc)).getLast? = some last.val := by
    rw [components_spell, heq, List.map_append, List.map_singleton, ← List.cons_append,
      List.getLast?_concat]
  have hdrop : (components (spell loc)).dropLast = [] :: parent.map Subtype.val := by
    rw [components_spell, heq, List.map_append, List.map_singleton, ← List.cons_append,
      List.dropLast_concat]
  rw [place, hlast]
  simp only [last.property, dif_pos, hdrop, hwalk, Option.bind_some, hparent, if_true]
  rw [heq]

/-- More links to follow change no walk. -/
theorem walk_mono
    {more : Nat}
    (hle : links ≤ more)
    (h : walk tree links here cs = some loc) :
    walk tree more here cs = some loc := by
  induction links generalizing here cs more with
  | zero =>
      rw [walk] at h
      split at h
      · rename_i found hdone
        rw [walk_of_done hdone, h]
      · cases h
  | succ links ih =>
      obtain ⟨more, rfl⟩ : ∃ n, more = n + 1 := ⟨more - 1, by omega⟩
      rw [walk] at h ⊢
      split at h
      · exact h
      · cases h
      · exact ih (by omega) h

/-- However many links are followed, a path leads to one entry. -/
theorem resolve_unique
    {path : Bytes} {more : Nat} {other : Location}
    (h : resolve tree links path = some loc)
    (hother : resolve tree more path = some other) :
    loc = other := by
  rcases Nat.le_total links more with hle | hle
  · exact Option.some.inj ((walk_mono hle h).symm.trans hother)
  · exact Option.some.inj (h.symm.trans (walk_mono hle hother))

theorem advance_append
    {more : List Bytes} :
    advance tree here (cs ++ more) =
      match advance tree here cs with
      | .done mid => advance tree mid more
      | .failed => .failed
      | .followed at' target rest => .followed at' target (rest ++ more) := by
  induction cs generalizing here with
  | nil => rfl
  | cons c cs ih =>
      rw [List.cons_append, advance, advance]
      by_cases hdir : isDir tree here = true
      · rw [if_pos hdir, if_pos hdir]
        by_cases hname : IsName c
        · rw [dif_pos hname, dif_pos hname]
          cases hnode : tree (here ++ [⟨c, hname⟩]) with
          | none => rfl
          | some node =>
              cases node with
              | file mode content => exact ih
              | dir mode size => exact ih
              | link target => rfl
        · rw [dif_neg hname, dif_neg hname]
          split <;> exact ih
      · rw [if_neg hdir, if_neg hdir]

/-- A walk to an entry goes by way of the directory that the last component is looked up in. -/
theorem walk_concat
    (h : walk tree links here (cs ++ [c]) = some loc) :
    ∃ mid left, walk tree links here cs = some mid ∧ walk tree left mid [c] = some loc := by
  induction links generalizing here cs with
  | zero =>
      rw [walk, advance_append] at h
      cases hfirst : advance tree here cs with
      | done mid =>
          rw [hfirst] at h
          exact ⟨mid, 0, by rw [walk, hfirst], h⟩
      | failed => simp [hfirst] at h
      | followed at' target rest => simp [hfirst] at h
  | succ links ih =>
      rw [walk, advance_append] at h
      cases hfirst : advance tree here cs with
      | done mid =>
          rw [hfirst] at h
          exact ⟨mid, links + 1, by rw [walk, hfirst], h⟩
      | failed => simp [hfirst] at h
      | followed at' target rest =>
          simp only [hfirst] at h
          rw [← List.append_assoc] at h
          obtain ⟨mid, left, hwalk, hlast⟩ := ih h
          exact ⟨mid, left, by rw [walk, hfirst]; exact hwalk, hlast⟩

/-- What a path names is what it leads to, or a link. -/
theorem place_of_resolve
    {path : Bytes} {node : Node}
    (h : resolve tree links path = some loc)
    (hnode : tree loc = some node) :
    ∃ named found, place tree links path = some named ∧ tree named = some found ∧
      (named = loc ∨ ∃ target, found = .link target) := by
  obtain ⟨init, last, hcomponents⟩ : ∃ init last, components path = init ++ [last] := by
    rcases List.eq_nil_or_concat (components path) with hnil | ⟨init, last, heq⟩
    · exact absurd hnil (List.splitOn_ne_nil _ _)
    · exact ⟨init, last, heq.trans List.concat_eq_append⟩
  have hplace : place tree links path =
      if hname : IsName last then
        (walk tree links [] init).bind fun here =>
          if isDir tree here then some (here ++ [⟨last, hname⟩]) else none
      else resolve tree links path := by
    simp [place, hcomponents]
  by_cases hname : IsName last
  · rw [resolve, hcomponents] at h
    obtain ⟨mid, left, hwalk, hlast⟩ := walk_concat h
    have hdir : isDir tree mid = true := by
      by_contra hnot
      have hfailed : advance tree mid [last] = .failed := by rw [advance, if_neg hnot]
      cases left <;> simp [walk, hfailed] at hlast
    rw [dif_pos hname, hwalk, Option.bind_some, if_pos hdir] at hplace
    cases hentry : tree (mid ++ [⟨last, hname⟩]) with
    | none =>
        have hfailed : advance tree mid [last] = .failed := by
          rw [advance, if_pos hdir, dif_pos hname, hentry]
        cases left <;> simp [walk, hfailed] at hlast
    | some found =>
        refine ⟨_, found, hplace, hentry, ?_⟩
        by_cases hlink : ∃ target, found = .link target
        · exact .inr hlink
        · left
          have hdone : advance tree mid [last] = .done (mid ++ [⟨last, hname⟩]) := by
            rw [advance_name hdir hname hentry fun target heq => hlink ⟨target, heq⟩]
            rfl
          rw [walk_of_done hdone] at hlast
          exact Option.some.inj hlast
  · rw [dif_neg hname] at hplace
    exact ⟨loc, node, hplace.trans h, hnode, .inl rfl⟩

/-! ## Growth -/

theorem Grows.isDir
    (hgrows : Grows tree grown)
    (h : isDir tree here = true) :
    isDir grown here = true := by
  rw [FileTree.isDir] at h
  split at h
  · rename_i hnode
    rw [FileTree.isDir, hgrows _ _ hnode]
  · cases h

theorem Grows.advance
    (hgrows : Grows tree grown)
    (h : advance tree here cs ≠ .failed) :
    advance grown here cs = advance tree here cs := by
  induction cs generalizing here with
  | nil => rfl
  | cons c cs ih =>
      by_cases hdir : FileTree.isDir tree here = true
      · have hdir' := hgrows.isDir hdir
        rw [FileTree.advance, if_pos hdir] at h
        rw [FileTree.advance, FileTree.advance, if_pos hdir, if_pos hdir']
        by_cases hname : IsName c
        · rw [dif_pos hname] at h
          rw [dif_pos hname, dif_pos hname]
          cases hnode : tree (here ++ [⟨c, hname⟩]) with
          | none => simp [hnode] at h
          | some node =>
              rw [hgrows _ _ hnode]
              rw [hnode] at h
              cases node with
              | file mode content => exact ih h
              | dir mode size => exact ih h
              | link target => rfl
        · rw [dif_neg hname] at h
          rw [dif_neg hname, dif_neg hname]
          by_cases hdots : c = dotdot
          · rw [if_pos hdots] at h
            rw [if_pos hdots, if_pos hdots]
            exact ih h
          · rw [if_neg hdots] at h
            rw [if_neg hdots, if_neg hdots]
            exact ih h
      · rw [FileTree.advance, if_neg hdir] at h
        exact absurd rfl h

theorem Grows.walk
    (hgrows : Grows tree grown)
    (h : walk tree links here cs = some loc) :
    walk grown links here cs = some loc := by
  induction links generalizing here cs with
  | zero =>
      rw [FileTree.walk] at h
      split at h
      · rename_i found hdone
        rw [← h]
        apply walk_of_done
        rw [hgrows.advance (by simp [hdone]), hdone]
      · cases h
  | succ links ih =>
      rw [FileTree.walk] at h
      split at h
      · rename_i found hdone
        rw [← h]
        apply walk_of_done
        rw [hgrows.advance (by simp [hdone]), hdone]
      · cases h
      · rename_i hfollowed
        rw [FileTree.walk, hgrows.advance (by simp [hfollowed]), hfollowed]
        exact ih h

theorem Grows.resolve
    (hgrows : Grows tree grown)
    {path : Bytes}
    (h : resolve tree links path = some loc) :
    resolve grown links path = some loc :=
  hgrows.walk h

theorem Grows.place
    (hgrows : Grows tree grown)
    {path : Bytes}
    (h : place tree links path = some loc) :
    place grown links path = some loc := by
  rw [FileTree.place] at h ⊢
  cases hlast : (components path).getLast? with
  | none => simp [hlast] at h
  | some last =>
      simp only [hlast] at h ⊢
      split at h
      · rename_i hname
        obtain ⟨here, hwalk, hplace⟩ := Option.bind_eq_some_iff.1 h
        split at hplace
        · rename_i hdir
          rw [dif_pos hname, hgrows.walk hwalk, Option.bind_some, if_pos (hgrows.isDir hdir)]
          exact hplace
        · cases hplace
      · rename_i hname
        rw [dif_neg hname]
        exact hgrows.resolve h

theorem set_set (tree : Tree) (loc : Location) (node other : Node) :
    set (set tree loc node) loc other = set tree loc other :=
  Function.update_idem ..

theorem set_self (tree : Tree) (loc : Location) (node : Node) :
    set tree loc node loc = some node :=
  Function.update_self ..

/-- Removing what was put where nothing stood. -/
theorem remove_set
    {node : Node}
    (h : tree loc = none) :
    remove (set tree loc node) loc = tree := by
  rw [remove, set, Function.update_idem, ← h, Function.update_eq_self]

/-- A tree grows when a node is put where nothing stood. -/
theorem grows_set
    {node : Node}
    (h : tree loc = none) :
    Grows tree (set tree loc node) := by
  intro other found hfound
  rw [set, Function.update_of_ne]
  · exact hfound
  · rintro rfl
    rw [h] at hfound
    cases hfound

end Walks

end FileTree
end Lib
end Vesta
