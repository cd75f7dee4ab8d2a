import Switchboard.Proofs.History.Entries
import Switchboard.Proofs.History.Recording

/-!
# The limit of a history

A history takes over no more entries from its file than the limit allows, and keeps no more of the
lines added to it, in whatever order it is loaded, added to and saved. What is left out is counted
from the end, and a count of zero leaves out nothing, so that a limit of zero is no limit at all.
-/

namespace Switchboard.History

/-- A history beside the registry that says whether it is kept. -/
structure Desk where
  registry : Registry
  history : History
  host : Host

inductive Event
  | load
  | add (line : Text)
  | save
  /-- A switch is set, the one that keeps the history or another one. -/
  | set (id : Text) (value : Json)
  /-- From now on calls meet these faults, and others have left the file tree like this. -/
  | outside (met : Faults) (tree : FileTree)

def Event.apply : Event → Desk → Desk
  | load, d =>
    match d.registry.isOn Descriptor.saveHistory with
    | .error _ => d
    | .ok kept =>
      let (_, history, host) := d.history.load kept d.host
      { d with history, host }
  | add line, d => { d with history := d.history.add line }
  | save, d =>
    match d.registry.isOn Descriptor.saveHistory with
    | .error _ => d
    | .ok kept => { d with host := (d.history.save kept d.host).2 }
  | set id value, d =>
    let (_, registry, host) := d.registry.set id value d.host
    { d with registry, host }
  | outside met tree, d => { d with host := { d.host with faults := met, tree } }

def run (events : List Event) (d : Desk) : Desk :=
  events.foldl (fun d event => event.apply d) d

structure Within (limit : Nat) (h : History) : Prop where
  limited : h.maxEntries = limit
  fits : h.entries.length ≤ limit

variable {h : History} {limit : Nat}

theorem length_newest_le (hLimit : 0 < limit) (entries : List Text) :
    (newest limit entries).length ≤ limit := by
  rw [newest_eq_rtake hLimit]
  exact length_rtake_le limit entries

theorem Within.load (hWithin : Within limit h) (hLimit : 0 < limit) (kept : Bool) (host : Host) :
    Within limit (h.load kept host).2.1 := by
  rcases h.load_entries kept host with hSame | ⟨_, t, _, _, hLoaded⟩
  · rw [hSame]
    exact hWithin
  · rw [hLoaded]
    refine ⟨hWithin.limited, ?_⟩
    dsimp only
    rw [hWithin.limited]
    exact length_newest_le hLimit _

theorem Within.add (hWithin : Within limit h) (hLimit : 0 < limit) (line : Text) :
    Within limit (h.add line) := by
  rw [History.add]
  split
  · exact hWithin
  · refine ⟨hWithin.limited, ?_⟩
    dsimp only
    rw [hWithin.limited]
    exact length_newest_le hLimit _

theorem Within.apply {d : Desk} (hWithin : Within limit d.history) (hLimit : 0 < limit)
    (event : Event) : Within limit (event.apply d).history := by
  cases event with
  | load =>
    rw [Event.apply]
    split
    · exact hWithin
    · exact hWithin.load hLimit _ _
  | add line => exact hWithin.add hLimit line
  | save =>
    rw [Event.apply]
    split
    · exact hWithin
    · exact hWithin
  | set id value => exact hWithin
  | outside met tree => exact hWithin

theorem Within.run {d : Desk} (hWithin : Within limit d.history) (hLimit : 0 < limit)
    (events : List Event) : Within limit (run events d).history := by
  induction events generalizing d with
  | nil => exact hWithin
  | cons event rest ih => exact ih (hWithin.apply hLimit event)

/-! ## A limit of zero -/

def steps (count : Nat) : List Text :=
  (List.range count).map fun number => List.replicate (number + 1) (CodePoint.ofChar 'n')

theorem steps_succ (count : Nat) :
    steps (count + 1) = steps count ++ [List.replicate (count + 1) (CodePoint.ofChar 'n')] := by
  rw [steps, List.range_succ, List.map_append]
  rfl

theorem strip_step (count : Nat) :
    Text.strip (List.replicate (count + 1) (CodePoint.ofChar 'n')) ≠ [] := by
  rw [ne_eq, Text.strip_eq_nil_iff]
  intro hBlank
  have hFirst := hBlank (CodePoint.ofChar 'n') (by simp)
  revert hFirst
  decide

theorem getLast?_steps_ne (count : Nat) :
    (steps count).getLast? ≠ some (List.replicate (count + 1) (CodePoint.ofChar 'n')) := by
  cases count with
  | zero => nofun
  | succ count =>
    rw [steps_succ, List.getLast?_concat]
    intro hSame
    have hLength := congrArg List.length (Option.some.inj hSame)
    simp at hLength

theorem run_steps (d : Desk) (hMax : d.history.maxEntries = 0) (hEntries : d.history.entries = [])
    (count : Nat) :
    run ((steps count).map .add) d = { d with history := { d.history with entries := steps count } } := by
  induction count with
  | zero =>
    obtain ⟨registry, ⟨path, maxEntries, entries⟩, host⟩ := d
    cases hEntries
    rfl
  | succ count ih =>
    rw [steps_succ, List.map_append, run, List.foldl_append]
    change Event.apply (.add _) (run ((steps count).map .add) d) = _
    rw [ih, Event.apply, History.add, if_neg (not_or.mpr ⟨strip_step count, getLast?_steps_ne count⟩)]
    dsimp only
    rw [hMax]
    rfl

/-- Whatever a history has been through, it is within its limit, exactly if that is not zero. With a
limit of zero there is no bound: histories of every length are reached. -/
theorem within_limit_iff (limit : Nat) (path : FilePath) (registry : Registry) (host : Host) :
    ((∀ events, (run events ⟨registry, { path, maxEntries := limit }, host⟩).history.entries.length ≤
        limit) ↔ 0 < limit) ∧
      ∀ count, ∃ events,
        (run events ⟨registry, { path, maxEntries := 0 }, host⟩).history.entries.length = count := by
  have hReached : ∀ count, ∃ events,
      (run events ⟨registry, { path, maxEntries := 0 }, host⟩).history.entries.length = count := by
    intro count
    refine ⟨(steps count).map .add, ?_⟩
    rw [run_steps _ rfl rfl]
    simp [steps]
  refine ⟨⟨fun hBounded => ?_, fun hLimit events => ?_⟩, hReached⟩
  · rw [Nat.pos_iff_ne_zero]
    rintro rfl
    obtain ⟨events, hLength⟩ := hReached 1
    have hNone := hBounded events
    change (run events ⟨registry, { path, maxEntries := 0 }, host⟩).history.entries.length ≤ 0 at hNone
    rw [hLength] at hNone
    cases hNone
  · have hStart : Within limit { path, maxEntries := limit } := ⟨rfl, Nat.zero_le limit⟩
    exact (hStart.run (d := ⟨registry, _, host⟩) hLimit events).fits

/-- A history that is to hold no entry holds the first line that is added to it. -/
theorem not_within_limit_of_zero :
    ¬ (run [.add "look"]
        ⟨{ settings := [] }, { path := ⟨"/", ["history"]⟩, maxEntries := (0 : Nat) },
          .sample []⟩).history.entries.length ≤ 0 := by
  decide

end Switchboard.History
