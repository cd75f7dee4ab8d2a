import Switchboard.Proofs.Descriptor
import Switchboard.Proofs.Registry.Loading
import Switchboard.Proofs.Registry.Tracing

/-!
# Switches as they were declared

A registry never leaves the index that it was started on. At every moment, also between two listeners
that are told of a change, it lists each declared switch once, in the order of declaration and with
what was declared of it, and it knows no other switch.
-/

namespace Switchboard.Registry

def IsOver (index : DescriptorIndex) (r : Registry) : Prop :=
  r.settings.map Setting.descriptor = index.descriptors

/-- The call ended because there is no such switch. -/
def LacksSwitch {α : Type} (result : Except Failure α) : Prop :=
  ∃ name, result = .error (.unknownSetting name)

/-- The registry tells of each declared switch once, in the order of declaration, and of no other. -/
structure Presents (ds : List Descriptor) (r : Registry) : Prop where
  ids : r.ids = ds.map Descriptor.id
  nodup : r.ids.Nodup
  list : List.Forall₂ (fun d entry => entry.id = d.id ∧ entry.help = d.help ∧
    entry.requiresRestart = d.requiresRestart ∧ r.get d.id = .ok entry.value) ds r.list
  descriptor : ∀ d ∈ ds, r.descriptor d.id = .ok d
  lacks_get : ∀ id, LacksSwitch (r.get id) ↔ id ∉ ds.map Descriptor.id
  lacks_descriptor : ∀ id, LacksSwitch (r.descriptor id) ↔ id ∉ ds.map Descriptor.id
  /-- At the bottom of a cascade that is too deep a set fails before the switch is looked up. -/
  lacks_set : ∀ limit id value host,
    LacksSwitch (setWithin (limit + 1) id value r host).1 ↔ id ∉ ds.map Descriptor.id

/-- Where a registry and its host can be at a moment when somebody may act on it. -/
inductive Reachable (first : Registry × Host) : Registry × Host → Prop
  | start : Reachable first first
  | act {s : Registry × Host} (limit : Nat) (act : Act) (h : Reachable first s) :
    Reachable first (act.effect limit s)
  /-- A set makes a change, and some listeners have done what they have to do about it. -/
  | telling {s : Registry × Host} {id : Text} {value : Json} {b : Bool} {told : Registry}
    {later : Host} {ahead : List Listener} (limit : Nat) (h : Reachable first s)
    (hTold : announcement? id value s.1 s.2 = some (b, told, later))
    (hAhead : ahead <+: told.listeners) :
    Reachable first (announce told.signal (setWithin limit) id b ahead told later).2

variable {index : DescriptorIndex} {r told : Registry} {host later : Host} {s : Setting} {id : Text}
  {value : Json} {b : Bool}

/-! ## Registries over an index -/

theorem IsOver.ids_eq (h : r.IsOver index) : r.ids = index.descriptors.map Descriptor.id := by
  rw [← h, List.map_map]
  rfl

theorem IsOver.mem (h : r.IsOver index) (hs : s ∈ r.settings) : s.descriptor ∈ index.descriptors :=
  h ▸ List.mem_map_of_mem hs

theorem IsOver.setting?_eq (h : r.IsOver index) (hs : s ∈ r.settings) :
    r.setting? s.descriptor.id = some s :=
  setting?_of_nodup (h.ids_eq ▸ index.nodup) hs

/-! ## Calls that fail for want of a switch -/

theorem lacksSwitch_get_iff (r : Registry) (id : Text) : LacksSwitch (r.get id) ↔ id ∉ r.ids := by
  rw [← setting?_eq_none_iff, get]
  cases r.setting? id with
  | none => simp [LacksSwitch]
  | some s => simp [LacksSwitch]

theorem lacksSwitch_descriptor_iff (r : Registry) (id : Text) :
    LacksSwitch (r.descriptor id) ↔ id ∉ r.ids := by
  rw [← setting?_eq_none_iff, descriptor]
  cases r.setting? id with
  | none => simp [LacksSwitch]
  | some s => simp [LacksSwitch]

theorem lacksSwitch_setWith_iff (hSignal : r.signal.Contains) (nested : Setter) (id : Text)
    (value : Json) (host : Host) :
    LacksSwitch (setWith nested id value r host).1 ↔ id ∉ r.ids := by
  rw [← setting?_eq_none_iff]
  unfold setWith
  cases r.setting? id with
  | none => simp [LacksSwitch]
  | some s =>
    cases value with
    | bool b =>
      dsimp only
      split
      · simp [LacksSwitch]
      · have hStill : (r.assign id b).signal.Contains := hSignal
        rw [submit_signal, announce_of_contains hStill]
        simp [LacksSwitch]
    | _ => simp [LacksSwitch]

theorem IsOver.presents (h : r.IsOver index) (hSignal : r.signal.Contains) :
    r.Presents index.descriptors where
  ids := h.ids_eq
  nodup := h.ids_eq ▸ index.nodup
  list := by
    have hRow : ∀ s ∈ r.settings, r.get s.descriptor.id = .ok s.value := by
      intro s hs
      rw [get, h.setting?_eq hs]
    rw [← h, list, List.forall₂_map_left_iff, List.forall₂_map_right_iff, List.forall₂_same]
    exact fun s hs => ⟨rfl, rfl, rfl, hRow s hs⟩
  descriptor := by
    intro d hd
    obtain ⟨s, hs, rfl⟩ := List.mem_map.mp (h.symm ▸ hd)
    rw [descriptor, h.setting?_eq hs]
  lacks_get id := by
    rw [← h.ids_eq]
    exact lacksSwitch_get_iff r id
  lacks_descriptor id := by
    rw [← h.ids_eq]
    exact lacksSwitch_descriptor_iff r id
  lacks_set limit id value host := by
    rw [← h.ids_eq]
    exact lacksSwitch_setWith_iff hSignal (setWithin limit) id value host

/-! ## Staying over an index -/

theorem isOver_start {backend : Option Backend} (h : start index backend host = (.ok r, later)) :
    r.IsOver index := by
  cases backend with
  | none =>
    cases h
    rw [IsOver, List.map_map]
    exact List.map_id _
  | some backend =>
    rw [start] at h
    split at h
    · cases h
    · rename_i settings after last hLoad
      cases h
      exact descriptors_of_loadSettings hLoad

theorem IsOver.assign (h : r.IsOver index) (id : Text) (b : Bool) :
    (r.assign id b).IsOver index := by
  rw [IsOver, Registry.assign, List.map_map, ← h]
  refine List.map_congr_left fun s _ => ?_
  rw [Function.comp_apply]
  split
  · rfl
  · rfl

theorem steady_isOver (index : DescriptorIndex) : Steady fun s t => s = t ∧ s.1.IsOver index := by
  apply steady_self
  · intro s change h
    exact h
  · intro s log h
    exact h
  · intro s id b _ h
    obtain ⟨queue, hSubmit⟩ := submit_frame id b (s.1.assign id b) s.2
    rw [hSubmit]
    exact h.assign id b

theorem IsOver.announce (h : told.IsOver index) (limit : Nat) (id : Text) (b : Bool)
    (listeners : List Listener) (later : Host) :
    (announce told.signal (setWithin limit) id b listeners told later).2.1.IsOver index := by
  have hSteady := steady_isOver index
  exact (hSteady.announce (hSteady.setWithin limit) told.signal id b listeners (s := (told, later))
    ⟨rfl, h⟩).2.2

theorem IsOver.announcement (h : r.IsOver index)
    (hTold : announcement? id value r host = some (b, told, later)) : told.IsOver index := by
  obtain ⟨s, queue, _, _, rfl⟩ := told_of_announcement? hTold
  exact h.assign id b

theorem IsOver.overQueue (h : r.IsOver index) (act : WriteQueue → Host → WriteQueue × Host)
    (host : Host) : (r.overQueue act host).1.IsOver index := by
  rw [IsOver, settings_overQueue]
  exact h

theorem IsOver.effect {s : Registry × Host} (h : s.1.IsOver index) (limit : Nat) (act : Act) :
    (act.effect limit s).1.IsOver index := by
  cases act with
  | set id value => exact ((steady_isOver index).setWithin limit id value ⟨rfl, h⟩).2.2
  | connect listener => exact h
  | take => exact h.overQueue _ s.2
  | finish => exact h.overQueue _ s.2
  | flush => exact h.overQueue _ s.2
  | close => exact h.overQueue _ s.2
  | outside host => exact h

theorem IsOver.reachable {first s : Registry × Host} (h : first.1.IsOver index)
    (hReachable : Reachable first s) : s.1.IsOver index := by
  induction hReachable with
  | start => exact h
  | act limit act _ ih => exact ih.effect limit act
  | telling limit _ hTold _ ih => exact (IsOver.announcement ih hTold).announce limit _ _ _ _

theorem Reachable.signal {first s : Registry × Host} (h : Reachable first s) :
    s.1.signal = first.1.signal := by
  induction h with
  | start => rfl
  | act limit act _ ih => exact (signal_effect limit act _).trans ih
  | @telling s _ _ _ told later _ limit _ hTold _ ih =>
    have hSteady := steady_signal first.1.signal
    have hStill : told.signal = first.1.signal := (signal_of_announcement? hTold).trans ih
    exact (hSteady.announce (hSteady.setWithin limit) _ _ _ _ (s := (told, later))
      ⟨rfl, hStill⟩).2.2

theorem Reachable.run {first s : Registry × Host} (h : Reachable first s) (limit : Nat)
    (acts : List Act) : Reachable first (run limit acts s) := by
  induction acts generalizing s with
  | nil => exact h
  | cons act rest ih => exact ih (h.act limit act)

/-! ## Declarations and what becomes of them -/

/-- Declarations are refused exactly when two of them share an identifier, for the first one that
repeats an earlier one. Otherwise they make an index that leads from each identifier to its
declaration, in their order, and a registry over it presents them wherever it can be: to look up or
to set a switch fails for want of it exactly when it was not declared. -/
theorem presents_declarations (ds : List Descriptor) :
    ((∃ e, DescriptorIndex.build ds = .error e ∧ e.isAboutValue = true) ↔
      ¬ (ds.map Descriptor.id).Nodup) ∧
    (∀ e, DescriptorIndex.build ds = .error e ↔ ∃ before d behind, ds = before ++ d :: behind ∧
      d.id ∈ before.map Descriptor.id ∧ (before.map Descriptor.id).Nodup ∧
      e = .duplicateId d.id) ∧
    ((ds.map Descriptor.id).Nodup → ∃ index, DescriptorIndex.build ds = .ok index ∧
      index.entries = ds.map (fun d => (d.id, d)) ∧
      (∀ id d, index.entries.get? id = some d ↔ d ∈ ds ∧ d.id = id) ∧
      ∀ backend host r₀ host₀, start index backend host = (.ok r₀, host₀) →
        ∀ r later, Reachable (r₀, host₀) (r, later) → r.Presents ds) := by
  refine ⟨DescriptorIndex.exists_build_error_iff, fun e => DescriptorIndex.build_eq_error_iff, ?_⟩
  intro hNodup
  refine ⟨⟨ds, hNodup⟩, DescriptorIndex.build_of_nodup hNodup, rfl,
    DescriptorIndex.get?_entries_iff _, ?_⟩
  intro backend host r₀ host₀ hStart r later hReachable
  have hOver : r.IsOver ⟨ds, hNodup⟩ := (isOver_start hStart).reachable hReachable
  exact hOver.presents (hReachable.signal ▸ contains_of_start hStart)

/-- A listener has answered that the mouse is switched on, and others are still to hear of it. -/
theorem presents_declarations_amid_answers :
    (Descriptor.table.map Descriptor.id).Nodup ∧ ∃ index r₀ host₀,
      DescriptorIndex.build Descriptor.table = .ok index ∧
      start index (some failingBackend) (Host.sample []) = (.ok r₀, host₀) ∧
      let s := run cascadeLimit (meddledActs.take 3) (r₀, host₀)
      ∃ told later, announcement? Descriptor.mouseEnabled true s.1 s.2 = some (true, told, later) ∧
        let amid :=
          (announce told.signal (setWithin 324) Descriptor.mouseEnabled true [.program meddle] told
            later).2
        Reachable (r₀, host₀) amid ∧ amid.1.Presents Descriptor.table ∧
        amid.1.get Descriptor.mouseEnabled = .ok true ∧
        amid.1.get Descriptor.confirmQuit = .ok false ∧
        LacksSwitch (amid.1.set "no_such_switch" true amid.2).1 := by
  have hNodup : (Descriptor.table.map Descriptor.id).Nodup := by decide
  obtain ⟨_, _, hBuilt⟩ := presents_declarations Descriptor.table
  obtain ⟨index, hBuild, _, _, hKept⟩ := hBuilt hNodup
  cases (DescriptorIndex.build_of_nodup hNodup).symm.trans hBuild
  refine ⟨hNodup, _, _, _, hBuild, rfl, ?_⟩
  intro s
  obtain ⟨told, later, hTold, hMouse, hQuit⟩ : ∃ told later,
      announcement? Descriptor.mouseEnabled true s.1 s.2 = some (true, told, later) ∧
      (tell (setWithin 324) Descriptor.mouseEnabled true [.program meddle] told later).1.get
        Descriptor.mouseEnabled = .ok true ∧
      (tell (setWithin 324) Descriptor.mouseEnabled true [.program meddle] told later).1.get
        Descriptor.confirmQuit = .ok false := ⟨_, _, rfl, rfl, rfl⟩
  refine ⟨told, later, hTold, ?_⟩
  intro amid
  obtain ⟨_, _, _, _, hListeners⟩ := told_of_announcement? hTold
  have hAhead : [.program meddle] <+: told.listeners := by
    rw [hListeners]
    exact ⟨_, rfl⟩
  have hReachable : Reachable _ amid :=
    (Reachable.start.run cascadeLimit (meddledActs.take 3)).telling 324 hTold hAhead
  have hPresents := hKept (some failingBackend) (Host.sample []) _ _ rfl _ _ hReachable
  have hSignal : told.signal.Contains := signal_of_announcement? hTold ▸ fun _ => rfl
  have hAmid : amid = _ := congrArg Prod.snd (announce_eq_tell hSignal _ _ _ _ _ _)
  refine ⟨hReachable, hPresents, hAmid ▸ hMouse, hAmid ▸ hQuit, ?_⟩
  exact (hPresents.lacks_set 324 "no_such_switch" true amid.2).mpr (by decide)

end Switchboard.Registry
