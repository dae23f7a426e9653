import Vesta.Vestad.Docker.Host

/-!
# From one agent to the host

What is proved of an operation on its own slot holds of it on the host, where
the other agents only drift meanwhile.  From it follows what every operation of
the host keeps, the boot pass over all agents included.
-/

namespace Vesta
namespace Vestad
namespace Docker

open Lib
open Prog

variable {user : String} {restores : Bool} {α : Type}

/-! ## The views of the host -/

@[simp] theorem World.view_put_self
    (w : World) (name : String) (v : View) :
    (w.put name v).view name = v := by
  simp [World.view, World.put]

theorem World.view_put_ne
    (w : World) {name other : String} (v : View)
    (hne : other ≠ name) :
    (w.put name v).view other = { w.view other with now := v.now } := by
  have hcmp : ¬name = other := fun h => hne h.symm
  simp [World.view, World.put, Std.ExtTreeMap.getElem?_insert, hcmp]

/-- Time passes for a name. -/
theorem drift_now
    (v : View) {now : Nat}
    (h : v.now ≤ now) :
    Drift v { v with now := now } :=
  { Drift.refl v with
    now := h
    gone := fun h => ⟨h, rfl⟩
    stands := fun c h => ⟨c, h, rfl, em _⟩ }

theorem act_now
    (v : View) (c : Call) (t : Tick) :
    (v.act c t).2.now = v.now := by
  cases c <;> simp only [View.act] <;> split <;> rfl

theorem exec_now
    (v : View) (c : Call) (t : Tick) :
    v.now ≤ (exec v c t).2.now := by
  have h := (drift_pass (v.act c t).2 t).now
  rwa [act_now] at h

theorem World.drift_put
    (w : World) {name : String} {v : View}
    (hd : Drift (w.view name) v) (other : String) :
    Drift (w.view other) ((w.put name v).view other) := by
  by_cases h : other = name
  · subst h
    simpa using hd
  · rw [World.view_put_ne w v h]
    exact drift_now _ hd.now

theorem World.drift_write
    (w : World) (name other : String) :
    Drift (w.view other) ((w.write name).view other) :=
  World.drift_put w (Docker.drift_write _) other

theorem World.drift_writers
    (w : World) (writers : List String) (name : String) :
    Drift (w.view name) ((writers.foldl World.write w).view name) := by
  induction writers generalizing w with
  | nil => exact .refl _
  | cons writer writers ih => exact (w.drift_write writer name).trans (ih _)

theorem write_now (v : View) : v.write.now = v.now := by
  unfold View.write
  split
  · rfl
  · split <;> rfl

theorem World.view_write_ne
    (w : World) {name other : String}
    (hne : other ≠ name) :
    (w.write name).view other = w.view other := by
  rw [World.write, World.view_put_ne w _ hne, write_now]
  rfl

theorem World.view_writers
    (w : World) {writers : List String} {name : String}
    (h : name ∉ writers) :
    (writers.foldl World.write w).view name = w.view name := by
  induction writers generalizing w with
  | nil => rfl
  | cons writer writers ih =>
      have hne : name ≠ writer := fun heq => h (by simp [heq])
      rw [List.foldl_cons, ih _ (fun hmem => h (List.mem_cons_of_mem _ hmem)),
        World.view_write_ne w hne]

/-! ## An operation on the host -/

/-- The agents of the other names only drift. -/
def Others (name : String) (w w' : World) : Prop :=
  ∀ other, other ≠ name → Drift (w.view other) (w'.view other)

theorem Others.refl (name : String) (w : World) : Others name w w := fun _ _ => .refl _

theorem Others.trans
    {name : String} {w w' w'' : World}
    (h : Others name w w') (h' : Others name w' w'') :
    Others name w w'' :=
  fun other hne => (h other hne).trans (h' other hne)

theorem hostExec_self
    (w : World) (name : String) (c : Call) (t : HostTick) :
    ((hostExec user w (.agent name c) t).2).view name = (exec (w.view name) c t.tick).2 := by
  change ((t.writers.filter (· ≠ name)).foldl World.write (w.put name _)).view name = _
  rw [World.view_writers _ (by simp), World.view_put_self]

theorem hostExec_others
    (w : World) (name : String) (c : Call) (t : HostTick) :
    Others name w (hostExec user w (.agent name c) t).2 := by
  intro other hne
  change Drift _ (((t.writers.filter (· ≠ name)).foldl World.write (w.put name _)).view other)
  refine Drift.trans ?_ (World.drift_writers _ _ other)
  rw [World.view_put_ne w _ hne]
  have hnow : (w.view other).now ≤ _ := exec_now (w.view name) c t.tick
  exact drift_now _ hnow

/-- What holds of an agent's operation on its slot holds of it on the host. -/
theorem wp_onAgent_from
    {g : Guard Call View Tick} {I : View → Prop} {Q : Except String α → View → Prop}
    {lists : Tick → Prop} {cut : Prop} {name : String} {p : Op α} {w₀ w : World}
    (h : wp exec g I Q p (w.view name)) (hothers : Others name w₀ w) :
    wp (hostExec user) (onHost g lists cut)
      (fun w' => I (w'.view name) ∧ Others name w₀ w')
      (fun r w' => Q r (w'.view name) ∧ Others name w₀ w') (onAgent name p) w := by
  induction p generalizing w with
  | ret r => exact ⟨h, hothers⟩
  | call c k ih =>
      refine ⟨fun hcut => ⟨h.1 hcut, hothers⟩, fun t ht => ?_⟩
      refine ih _ ?_ (hothers.trans (hostExec_others w name c t))
      rw [hostExec_self]
      exact h.2 t.tick ht

theorem wp_onAgent
    {g : Guard Call View Tick} {I : View → Prop} {Q : Except String α → View → Prop}
    {lists : Tick → Prop} {cut : Prop} {name : String} {p : Op α} {w : World}
    (h : wp exec g I Q p (w.view name)) :
    wp (hostExec user) (onHost g lists cut)
      (fun w' => I (w'.view name) ∧ Others name w w')
      (fun r w' => Q r (w'.view name) ∧ Others name w w') (onAgent name p) w :=
  wp_onAgent_from h (.refl name w)

/-! ## What every operation keeps -/

/-- Nothing stands under the name that the boot pass could find. -/
structure Vacant (v : View) : Prop where
  container : v.container = none
  snapshots : v.snapshots = []
  latest : v.latest = none

theorem Vacant.drift
    {v w : View}
    (h : Vacant v) (hd : Drift v w) :
    Vacant w :=
  ⟨(hd.gone h.container).1, hd.snapshots.trans h.snapshots,
    (hd.gone h.container).2.trans h.latest⟩

/-- Every agent is preserved, and only valid names are used. -/
structure HostPreserved (restores : Bool) (w : World) : Prop where
  preserved : ∀ name, Preserved restores (w.view name)
  named : ∀ name, validateName name ≠ .ok () → Vacant (w.view name)

/-- Every agent is kept, with only valid names in use. -/
structure HostKept (restores : Bool) (w : World) : Prop where
  kept : ∀ name, Kept restores (w.view name)
  named : ∀ name, validateName name ≠ .ok () → Vacant (w.view name)

theorem HostPreserved.hostKept
    {w : World}
    (h : HostPreserved restores w) :
    HostKept restores w :=
  ⟨fun name => (h.preserved name).kept, h.named⟩

/-- The host after one agent's operation, from what holds of that agent. -/
theorem HostPreserved.of_others
    {name : String} {w w' : World}
    (h : HostPreserved restores w) (hname : validateName name = .ok ())
    (hp : Preserved restores (w'.view name)) (hothers : Others name w w') :
    HostPreserved restores w' where
  preserved other := by
    by_cases heq : other = name
    · exact heq ▸ hp
    · exact (h.preserved other).drift (hothers other heq)
  named other hother := by
    have hne : other ≠ name := fun heq => hother (heq ▸ hname)
    exact (h.named other hother).drift (hothers other hne)

theorem HostPreserved.hostKept_of_others
    {name : String} {w w' : World}
    (h : HostPreserved restores w) (hname : validateName name = .ok ())
    (hk : Kept restores (w'.view name)) (hothers : Others name w w') :
    HostKept restores w' where
  kept other := by
    by_cases heq : other = name
    · exact heq ▸ hk
    · exact (h.preserved other).kept.drift (hothers other heq)
  named other hother := by
    have hne : other ≠ name := fun heq => hother (heq ▸ hname)
    exact (h.named other hother).drift (hothers other hne)

/-- A condition on the calls of one agent, with what then holds of the host wherever an operation
that leaves settled names is cut. -/
structure Watch (restores : Bool) (g : Guard Call View Tick) (J : World → Prop) : Prop where
  agent :
    ∀ {α : Type} (name : String) (p : Op α) (w : World), HostPreserved restores w →
      validateName name = .ok () → Settles restores p (w.view name) →
        wp exec g (fun v => ∀ w', w'.view name = v → Others name w w' → J w')
          (fun _ => Preserved restores) p (w.view name)
  host : ∀ w, HostPreserved restores w → J w

/-- What is kept at every point. -/
theorem watch_tidy : Watch restores (tidy restores) (HostKept restores) where
  agent name p w h hname hp := by
    refine wp_guard (fun _ _ _ ht => ht) (fun v c hc => ⟨hc, ?_⟩) hp
    exact fun hk w' hview hothers => h.hostKept_of_others hname (hview ▸ hk) hothers
  host _ h := h.hostKept

/-- What a crash leaves where the agent at hand is settled. -/
theorem watch_crashing : Watch restores (crashing restores) (HostPreserved restores) where
  agent name p w h hname hp := by
    have hcall :
        ∀ v c t, (crashing restores).call v c t → (tidy restores).call v c t := fun _ _ _ ht => ht
    refine wp_guard hcall (fun v c hc => ⟨trivial, ?_⟩) hp
    exact fun hk w' hview hothers =>
      h.of_others hname (hview ▸ (⟨hk, hc⟩ : Preserved restores v)) hothers
  host _ h := h

variable {g : Guard Call View Tick} {J : World → Prop}

/-- An operation of one agent that leaves a settled name. -/
theorem hostSettles_onAgent
    {name : String} {p : Op α} {w : World}
    (hwatch : Watch restores g J)
    (h : HostPreserved restores w) (hname : validateName name = .ok ())
    (hp : Settles restores p (w.view name)) :
    wp (hostExec user) (onHost g (fun _ => True) True) J
      (fun _ w' => HostPreserved restores w' ∧ Others name w w') (onAgent name p) w := by
  refine wp_guard (fun _ _ _ ht => ht) (fun w' c hc => ⟨hc, fun hI => ?_⟩)
    (wp_mono (fun r w' hw => ?_) (wp_onAgent (hwatch.agent name p w h hname hp)))
  · exact hI.1 w' rfl hI.2
  · exact ⟨h.of_others hname hw.1 hw.2, hw.2⟩

theorem settles_prog
    {v : View}
    (h : Preserved restores v) (op : AgentOp)
    (hfree : op = .createAgent → v.container = none → v.latest = none) :
    Settles restores op.prog v := by
  cases op with
  | createAgent => exact settles_createAgent h (hfree rfl)
  | destroyAgent => exact settles_destroyAgent h
  | rebuildAgent => exact settles_rebuildAgent h
  | startAgent => exact settles_startAgent h
  | stopAgent => exact settles_stopAgent h
  | ensureEnvFile => exact settles_ensureEnvFile h
  | createBackup => exact settles_createBackup h
  | restoreBackup id => exact settles_restoreBackup h id

/-! ## The boot pass -/

/-- The agents and seconds of the snapshots on the host. -/
def World.entries (w : World) : List (String × Nat) :=
  w.slots.toList.flatMap fun e => e.2.snapshots.map fun s => (e.1, s.1)

theorem World.view_of_mem
    {w : World} {e : String × Slot}
    (he : e ∈ w.slots.toList) :
    (w.view e.1).toSlot = e.2 := by
  have hget : w.slots[e.1]? = some e.2 := Std.ExtTreeMap.mem_toList_iff_getElem?_eq_some.1 he
  simp [World.view, hget]

/-- The tags are read back as they were written. -/
theorem filterMap_tags
    (user : String) {w : World}
    (hnamed : ∀ name, validateName name ≠ .ok () → Vacant (w.view name)) :
    (w.tags user).filterMap (parseRebuildSnapshot user) = w.entries := by
  rw [World.tags, World.entries, List.filterMap_flatMap]
  refine List.flatMap_congr fun e he => ?_
  rw [List.filterMap_map]
  by_cases hempty : e.2.snapshots = []
  · rw [hempty]
    rfl
  · have hvalid : validateName e.1 = .ok () := by
      by_contra hinvalid
      have hvacant := (hnamed e.1 hinvalid).snapshots
      rw [World.view_of_mem he] at hvacant
      exact hempty hvacant
    have hne := ne_empty_of_validateName hvalid
    rw [← List.filterMap_eq_map]
    refine List.filterMap_congr fun s _ => ?_
    exact parseRebuildSnapshot_tag user s.1 hne

theorem perm_filterMap_listing
    {w : World}
    (hnamed : ∀ name, validateName name ≠ .ok () → Vacant (w.view name)) (listed : List String) :
    ((w.listing user listed).filterMap (parseRebuildSnapshot user)).Perm w.entries := by
  rw [← filterMap_tags user hnamed]
  unfold World.listing
  split
  · rename_i hperm
    have hkeep :
        listed.filterMap (parseRebuildSnapshot user) =
          (listed.filter fun tag => (parseRebuildSnapshot user tag).isSome).filterMap
            (parseRebuildSnapshot user) := by
      rw [List.filterMap_filter]
      refine List.filterMap_congr fun tag _ => ?_
      cases parseRebuildSnapshot user tag <;> rfl
    rw [hkeep]
    exact (List.isPerm_iff.1 hperm).filterMap _
  · exact .refl _

/-- Of tables with distinct keys, the values under one key. -/
theorem filter_flatMap_key
    {β γ : Type} {es : List (String × β)} {f : β → List γ} {name : String}
    (hkeys : es.Pairwise fun a b => a.1 ≠ b.1) :
    ((es.flatMap fun e => (f e.2).map fun s => (e.1, s)).filter (·.1 = name)).map (·.2) =
      ((es.find? (·.1 = name)).map fun e => f e.2).getD [] := by
  induction es with
  | nil => rfl
  | cons e es ih =>
      obtain ⟨hhead, htail⟩ := List.pairwise_cons.1 hkeys
      rw [List.flatMap_cons, List.filter_append, List.map_append, ih htail]
      by_cases he : e.1 = name
      · have hnone : es.find? (·.1 = name) = none := by
          refine List.find?_eq_none.2 fun e' he' => ?_
          have hne := hhead e' he'
          rw [he] at hne
          simpa using hne.symm
        rw [hnone, List.find?_cons_of_pos (by simpa using he)]
        simp [List.filter_map, Function.comp_def, he]
      · rw [List.find?_cons_of_neg (by simpa using he)]
        simp [List.filter_map, Function.comp_def, he]

theorem entries_filter
    (w : World) (name : String) :
    (w.entries.filter (·.1 = name)).map (·.2) = (w.view name).snapshots.map (·.1) := by
  have hkeys : w.slots.toList.Pairwise fun a b => a.1 ≠ b.1 :=
    Std.ExtTreeMap.distinct_keys_toList.imp fun h heq => h (by simpa using heq)
  have hentries :
      w.entries =
        w.slots.toList.flatMap fun e => (e.2.snapshots.map (·.1)).map fun ts => (e.1, ts) := by
    refine List.flatMap_congr fun e _ => ?_
    rw [List.map_map]
    rfl
  rw [hentries, filter_flatMap_key (f := fun slot : Slot => slot.snapshots.map (·.1)) hkeys]
  cases hfind : w.slots.toList.find? (·.1 = name) with
  | none =>
      have hget : w.slots[name]? = none := by
        rw [Option.eq_none_iff_forall_ne_some]
        intro slot hslot
        have hmem := Std.ExtTreeMap.mem_toList_iff_getElem?_eq_some.2 hslot
        simpa using List.find?_eq_none.1 hfind _ hmem
      simp [World.view, hget, Slot.empty]
  | some e =>
      have hkey : e.1 = name := by simpa using List.find?_some hfind
      have hview := World.view_of_mem (List.mem_of_find?_eq_some hfind)
      rw [hkey] at hview
      rw [hview]
      rfl

/-- What the boot pass has found of an agent is what there is. -/
theorem found_of_mem
    {w : World} {listed : List String} {name : String} {tss : List Nat}
    (h : HostKept restores w)
    (hmem : (name, tss) ∈ rebuildSnapshotsByAgent user (w.listing user listed)) :
    Found tss (w.view name) := by
  obtain ⟨-, htss⟩ := mem_rebuildSnapshotsByAgent.1 hmem
  have hperm :
      tss.Perm ((w.view name).snapshots.map (·.1)).reverse := by
    rw [htss, ← entries_filter]
    refine (List.perm_insertionSort _ _).trans (List.Perm.trans ?_ (List.reverse_perm _).symm)
    exact ((perm_filterMap_listing h.named listed).filter _).map _
  have hsorted : tss.Pairwise (· ≤ ·) := by
    rw [htss]
    exact List.pairwise_insertionSort _ _
  have hreversed : ((w.view name).snapshots.map (·.1)).reverse.Pairwise (· ≤ ·) := by
    rw [List.pairwise_reverse, List.pairwise_map]
    exact (h.kept name).ordered.imp fun hlt => Nat.le_of_lt hlt
  have heq := List.Perm.eq_of_pairwise (fun a b _ _ => Nat.le_antisymm) hsorted hreversed hperm
  rw [Found, heq, List.reverse_reverse]

theorem validateName_of_mem
    {w : World} {listed : List String} {name : String} {tss : List Nat}
    (h : HostKept restores w)
    (hmem : (name, tss) ∈ rebuildSnapshotsByAgent user (w.listing user listed)) :
    validateName name = .ok () := by
  by_contra hinvalid
  obtain ⟨⟨ts, hts⟩, -⟩ := mem_rebuildSnapshotsByAgent.1 hmem
  have hentry := (perm_filterMap_listing h.named listed).subset hts
  obtain ⟨e, he, hs⟩ := List.mem_flatMap.1 hentry
  obtain ⟨s, hs, heq⟩ := List.mem_map.1 hs
  obtain ⟨rfl, rfl⟩ := Prod.mk.inj heq
  have hvacant := (h.named e.1 hinvalid).snapshots
  rw [World.view_of_mem he] at hvacant
  simp [hvacant] at hs

/-- What the boot pass has still to do: other agents, each found as it is. -/
structure Pending (found : List (String × List Nat)) (w : World) : Prop where
  distinct : found.Pairwise fun a b => a.1 ≠ b.1
  valid : ∀ e ∈ found, validateName e.1 = .ok ()
  found : ∀ e ∈ found, Found e.2 (w.view e.1)

theorem pending_found
    (user : String) {w : World} (listed : List String)
    (h : HostKept restores w) :
    Pending (rebuildSnapshotsByAgent user (w.listing user listed)) w where
  distinct := by
    rw [rebuildSnapshotsByAgent, List.pairwise_map]
    exact List.nodup_dedup _
  valid _ he := validateName_of_mem h he
  found _ he := found_of_mem h he

theorem Pending.of_others
    {e : String × List Nat} {found : List (String × List Nat)} {w w' : World}
    (h : Pending (e :: found) w) (hothers : Others e.1 w w') :
    Pending found w' where
  distinct := (List.pairwise_cons.1 h.distinct).2
  valid e' he' := h.valid e' (List.mem_cons_of_mem _ he')
  found e' he' := by
    have hne := (List.pairwise_cons.1 h.distinct).1 e' he'
    exact (h.found e' (List.mem_cons_of_mem _ he')).drift (hothers e'.1 hne.symm)

theorem hostSettles_resumeAll
    {found : List (String × List Nat)} {w : World}
    (hwatch : Watch restores g J)
    (h : HostPreserved restores w) (hpending : Pending found w) :
    wp (hostExec user) (onHost g (fun _ => True) True) J
      (fun _ => HostPreserved restores)
      (forEach (fun found => onAgent found.1 (resumeInterruptedRebuild found.2)) found) w := by
  induction found generalizing w with
  | nil => exact h
  | cons e found ih =>
      have hresume :=
        settles_resumeInterruptedRebuild (h.preserved e.1) (hpending.found e List.mem_cons_self)
      refine wp_seq (hostSettles_onAgent hwatch h (hpending.valid e List.mem_cons_self) hresume) ?_ ?_
      · exact fun _ w' hw' => ih hw'.1 (hpending.of_others hw'.2)
      · exact fun _ _ hw' => hw'.1

theorem HostPreserved.writers
    {w : World}
    (h : HostPreserved restores w) (writers : List String) :
    HostPreserved restores (writers.foldl World.write w) :=
  ⟨fun name => (h.preserved name).drift (w.drift_writers writers name),
    fun name hname => (h.named name hname).drift (w.drift_writers writers name)⟩

theorem Pending.writers
    {found : List (String × List Nat)} {w : World}
    (h : Pending found w) (writers : List String) :
    Pending found (writers.foldl World.write w) :=
  ⟨h.distinct, h.valid, fun e he => (h.found e he).drift (w.drift_writers writers e.1)⟩

/-- Every operation keeps every agent, at every point, and leaves every name settled. -/
theorem hostSettles
    {w : World}
    (hwatch : Watch restores g J)
    (h : HostPreserved restores w) (op : Operation) (hfits : op.Fits w) :
    wp (hostExec user) (onHost g (fun _ => True) True) J
      (fun _ => HostPreserved restores) (op.prog user) w := by
  cases op with
  | agent op name =>
      change wp _ _ _ _ (op.onName (op.target name)) w
      unfold AgentOp.onName
      split
      · exact h
      · rename_i hvalid
        split
        · refine wp_mono (fun _ _ hw => hw.1) (hostSettles_onAgent hwatch h hvalid ?_)
          refine settles_prog (h.preserved _) op fun hop hc => ?_
          subst hop
          exact hfits hc
        · exact h
  | resumeInterruptedRebuilds =>
      refine ⟨fun _ => hwatch.host w h, fun t _ => ?_⟩
      have hw := h.writers t.writers
      change wp _ _ _ _ (bind _ (ret (.ok (if t.tick.outcome.reports then _ else none)))) _
      cases t.tick.outcome.reports with
      | false => exact hw
      | true =>
          exact hostSettles_resumeAll hwatch hw
            ((pending_found user t.listed h.hostKept).writers t.writers)

/-- Along runs that meet the condition, every agent is preserved. -/
theorem hostPreserved_of_reaches
    {w : World}
    (h : (machine user).Reaches (Tidy user restores) w) :
    HostPreserved restores w := by
  refine h.invariant ?_ ?_
  · intro w hstart
    have hempty : ∀ name, (w.view name).toSlot = Slot.empty := by
      intro name
      have hslots : w.slots = ∅ := hstart
      simp [World.view, hslots]
    refine ⟨fun name => ?_, fun name _ => ?_⟩
    · have he := hempty name
      refine ⟨⟨?_, ?_, ?_, ?_, ?_, ?_⟩, ?_, ?_⟩ <;> simp [he, Slot.empty, Cleared]
    · have he := hempty name
      refine ⟨?_, ?_, ?_⟩ <;> simp [he, Slot.empty]
  · intro w label w' hw hok hstep
    cases label with
    | operate op ticks =>
        obtain rfl := Option.some.inj hstep
        have hrun := run_of_wp (hostSettles watch_crashing hw op hok.1) hok.2
        cases hresult : run (hostExec user) (op.prog user) w ticks with
        | mk w' r =>
            rw [hresult] at hrun
            cases r with
            | none => exact hrun
            | some r => exact hrun
    | write name =>
        obtain rfl := Option.some.inj hstep
        exact ⟨fun other => (hw.preserved other).drift (w.drift_write name other),
          fun other hother => (hw.named other hother).drift (w.drift_write name other)⟩
    | exit name =>
        obtain rfl := Option.some.inj hstep
        have hd := fun other => World.drift_put w (drift_setRunning (w.view name) false) other
        exact ⟨fun other => (hw.preserved other).drift (hd other),
          fun other hother => (hw.named other hother).drift (hd other)⟩

/-! ## A boot whose calls all work -/

/-- Every call works and the pass runs to its end. -/
def hostSmooth : Guard HostCall World HostTick := onHost smooth (fun t => t.outcome = .ok) False

theorem not_hostSmooth_cut (w : World) (c : HostCall) : ¬hostSmooth.cut w c := by
  cases c <;> exact id

/-- An agent without a container that the boot pass can resume. -/
structure Waiting (tss : List Nat) (ts : Nat) (v : View) : Prop where
  absent : v.container = none
  found : Found tss v
  newest : ∃ fs, v.snapshots.head? = some (ts, fs) ∧ v.latest = some fs
  port : v.port.isSome = true

theorem Waiting.drift
    {tss : List Nat} {ts : Nat} {v w : View}
    (h : Waiting tss ts v) (hd : Drift v w) :
    Waiting tss ts w where
  absent := (hd.gone h.absent).1
  found := h.found.drift hd
  newest := by
    obtain ⟨fs, hhead, hlatest⟩ := h.newest
    exact ⟨fs, by rw [hd.snapshots]; exact hhead, (hd.gone h.absent).2.trans hlatest⟩
  port := by simpa [View.port, hd.env] using h.port

/-- The agent has a container from the snapshot, which holds what the agent should have. -/
def Recreated (ts : Nat) (v : View) : Prop :=
  ∃ c, v.container = some c ∧ c.image = .rebuild ts ∧ v.latest = some c.fs

theorem Recreated.drift
    {ts : Nat} {v w : View}
    (h : Recreated ts v) (hd : Drift v w) :
    Recreated ts w := by
  obtain ⟨c, hc, himage, hlatest⟩ := h
  obtain ⟨c', hc', himage', hl⟩ := hd.stands c hc
  exact ⟨c', hc', himage'.trans himage, hl.resolve_right (not_not_intro hlatest)⟩

theorem returns_removeSnapshots (tss : List Nat) : Returns (removeSnapshots tss) := by
  refine returns_forEach (fun ts => ?_) tss
  exact fun _ => trivial

theorem returns_resumeFromSnapshot
    (superseded : List Nat) (newest port : Nat) :
    Returns (resumeFromSnapshot superseded newest port) := by
  refine returns_bind (returns_attempt _) fun r => ?_
  cases r with
  | ok _ => exact returns_removeSnapshots superseded
  | error e => trivial

/-- The boot pass goes on whatever happens to one agent. -/
theorem returns_resumeInterruptedRebuild (tss : List Nat) :
    Returns (resumeInterruptedRebuild tss) := by
  intro status
  change Returns (if (status : ContainerStatus) ≠ .notFound then _ else _)
  split
  · trivial
  · split
    · trivial
    · intro isFile
      cases isFile with
      | false => exact returns_removeSnapshots tss
      | true =>
          intro port
          cases (port : Option Nat) with
          | none => trivial
          | some port => exact returns_resumeFromSnapshot _ _ port

/-- Whatever is done for one agent, the others drift. -/
theorem others_resume
    (e : String × List Nat) (w : World) :
    wp (hostExec user) hostSmooth (fun _ => True)
      (fun r w' => (∃ a, r = .ok a) ∧ Others e.1 w w')
      (onAgent e.1 (resumeInterruptedRebuild e.2)) w := by
  refine wp_guard (fun _ _ _ ht => ht) (fun w' c hc => ⟨hc, fun _ => trivial⟩)
    (wp_onAgent (wp_of_returns (returns_resumeInterruptedRebuild e.2) (w.view e.1)))

theorem drift_resumeAll
    {found : List (String × List Nat)} {name : String} {w : World}
    (hne : ∀ e ∈ found, e.1 ≠ name) :
    wp (hostExec user) hostSmooth (fun _ => True)
      (fun _ w' => Drift (w.view name) (w'.view name))
      (forEach (fun found => onAgent found.1 (resumeInterruptedRebuild found.2)) found) w := by
  induction found generalizing w with
  | nil => exact .refl _
  | cons e found ih =>
      have hother := (hne e List.mem_cons_self).symm
      refine wp_seq (others_resume e w) (fun _ w' hw' => ?_) (fun _ _ hw' => hw'.2 name hother)
      refine wp_mono (fun _ _ hd => (hw'.2 name hother).trans hd) (ih fun e' he' => ?_)
      exact hne e' (List.mem_cons_of_mem _ he')

theorem recreates_resumeAll
    {found : List (String × List Nat)} {name : String} {tss : List Nat} {ts : Nat} {w : World}
    (hdistinct : found.Pairwise fun a b => a.1 ≠ b.1)
    (hmem : (name, tss) ∈ found) (hwaiting : Waiting tss ts (w.view name)) :
    wp (hostExec user) hostSmooth (fun _ => True) (fun _ w' => Recreated ts (w'.view name))
      (forEach (fun found => onAgent found.1 (resumeInterruptedRebuild found.2)) found) w := by
  induction found generalizing w with
  | nil => cases hmem
  | cons e found ih =>
      obtain ⟨hhead, htail⟩ := List.pairwise_cons.1 hdistinct
      rcases List.mem_cons.1 hmem with rfl | hmem
      · obtain ⟨fs, hsnap, hlatest⟩ := hwaiting.newest
        obtain ⟨port, hport⟩ := Option.isSome_iff_exists.1 hwaiting.port
        have hresume :=
          completes_resumeInterruptedRebuild hwaiting.absent hlatest hwaiting.found hsnap hport
        have hlift :
            wp (hostExec user) hostSmooth (fun _ => True) (fun _ w' => Recreated ts (w'.view name))
              (onAgent name (resumeInterruptedRebuild tss)) w := by
          refine wp_guard (fun _ _ _ ht => ht) (fun w' c hc => ⟨hc, fun _ => trivial⟩)
            (wp_mono (fun _ w' hw' => ?_) (wp_onAgent hresume))
          exact ⟨_, hw'.1.1, rfl, hw'.1.2⟩
        refine wp_seq hlift (fun _ w' hw' => ?_) (fun _ _ hw' => hw')
        exact wp_mono (fun _ _ hd => Recreated.drift hw' hd)
          (drift_resumeAll fun e' he' => (hhead e' he').symm)
      · have hne : name ≠ e.1 := (hhead _ hmem).symm
        refine wp_seq (others_resume e w) (fun _ w' hw' => ?_) (fun _ w' hw' => ?_)
        · exact ih htail hmem (hwaiting.drift (hw'.2 name hne))
        · obtain ⟨⟨a, ha⟩, -⟩ := hw'
          cases ha

theorem exists_mem_rebuildSnapshotsByAgent
    (user : String) {w : World} {name : String} {ts : Nat} {fs : Fs}
    (h : HostKept restores w) (listed : List String)
    (hhead : (w.view name).snapshots.head? = some (ts, fs)) :
    ∃ tss, (name, tss) ∈ rebuildSnapshotsByAgent user (w.listing user listed) := by
  have hts : ts ∈ (w.view name).snapshots.map (·.1) :=
    List.mem_map.2 ⟨(ts, fs), List.mem_of_head? hhead, rfl⟩
  rw [← entries_filter] at hts
  obtain ⟨e, he, rfl⟩ := List.mem_map.1 hts
  obtain ⟨hmem, hkey⟩ := List.mem_filter.1 he
  obtain rfl : e.1 = name := by simpa using hkey
  exact ⟨_, mem_rebuildSnapshotsByAgent.2
    ⟨⟨e.2, (perm_filterMap_listing h.named listed).symm.subset hmem⟩, rfl⟩⟩

/-- A boot whose calls all work creates every agent that has no container again, from its newest
snapshot. -/
theorem recreates_resumeInterruptedRebuilds
    (user : String) {w : World} {name : String} {ts : Nat} {L fs : Fs}
    (h : HostPreserved restores w)
    (hc : (w.view name).container = none) (hlatest : (w.view name).latest = some L)
    (hhead : (w.view name).snapshots.head? = some (ts, fs)) :
    wp (hostExec user) hostSmooth (fun _ => True) (fun _ w' => Recreated ts (w'.view name))
      (resumeInterruptedRebuilds user) w := by
  refine ⟨fun _ => trivial, fun t ht => ?_⟩
  obtain ⟨hport, hnewest⟩ := (h.preserved name).settled.resumable hc L hlatest
  have hL : fs = L := hnewest _ hhead
  have hpending := pending_found user t.listed h.hostKept
  obtain ⟨tss, hmem⟩ := exists_mem_rebuildSnapshotsByAgent user h.hostKept t.listed hhead
  have hwaiting : Waiting tss ts (w.view name) :=
    ⟨hc, found_of_mem h.hostKept hmem, ⟨fs, hhead, hL ▸ hlatest⟩, hport⟩
  change wp _ _ _ _ (bind _ (ret (.ok (if t.tick.outcome.reports then _ else none)))) _
  rw [show t.tick.outcome = .ok from ht]
  exact recreates_resumeAll hpending.distinct hmem
    (hwaiting.drift (w.drift_writers t.writers name))

end Docker
end Vestad
end Vesta
