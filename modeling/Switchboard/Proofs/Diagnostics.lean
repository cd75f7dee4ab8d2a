import Mathlib.Data.List.Basic
import Switchboard.Diagnostics
import Switchboard.Proofs.Host

/-!
# Level names

A level is named in any case of its letters, and a name that names no level is to stand for
information. Two names in capitals stand for something else than a level, though, and diagnostics
cannot be set up under these: the set-up fails before anything has changed but that its console was
made.
-/

namespace Switchboard.Diagnostics

def standardLevels : List (Text × Int) :=
  [("CRITICAL", 50), ("FATAL", 50), ("ERROR", 40), ("WARNING", 30), ("WARN", 30), ("INFO", 20),
    ("DEBUG", 10), ("NOTSET", 0)]

/-- The level that a name names, whatever the case of its letters, and else that of information. -/
def standardLevel (levelName : Text) : Int :=
  (standardLevels.lookup levelName.capital).getD 20

def otherValues : List (Text × NamedValue) :=
  [("BASIC_FORMAT", .text lineFormat), ("_STYLES", .table styleTable)]

variable {d : Diagnostics} {host : Host} {levelName : Text}

theorem lookup_level (levels : List (Text × Int)) (name : Text) :
    (levels.map fun named => (named.1, NamedValue.level named.2)).lookup name =
      (levels.lookup name).map .level := by
  induction levels with
  | nil => rfl
  | cons named rest ih =>
    rw [List.map_cons, List.lookup_cons, List.lookup_cons]
    cases name == named.1 with
    | true => rfl
    | false => exact ih

theorem lookup_namedValues (name : Text) :
    namedValues.lookup name =
      ((standardLevels.lookup name).map .level).or (otherValues.lookup name) := by
  rw [← lookup_level, ← List.lookup_append]
  rfl

/-- A name stands for its standard level, or the failure tells what else it stands for. -/
theorem levelNamed_cases (levelName : Text) :
    (levelName.capital ∉ otherValues.map Prod.fst ∧
      levelNamed levelName = .ok (standardLevel levelName)) ∨
    (levelName.capital = "BASIC_FORMAT" ∧
      levelNamed levelName = .error (.unknownLevel lineFormat)) ∨
    (levelName.capital = "_STYLES" ∧ levelNamed levelName = .error (.notLevel styleTable)) := by
  by_cases hOther : levelName.capital ∈ otherValues.map Prod.fst
  · refine .inr ?_
    simp only [otherValues, List.map_cons, List.map_nil, List.mem_cons, List.not_mem_nil,
      or_false] at hOther
    rcases hOther with hFormat | hStyles
    · have hFound : namedValues.lookup levelName.capital = some (.text lineFormat) := by
        rw [hFormat]
        rfl
      exact .inl ⟨hFormat, by rw [levelNamed, hFound]⟩
    · have hFound : namedValues.lookup levelName.capital = some (.table styleTable) := by
        rw [hStyles]
        rfl
      exact .inr ⟨hStyles, by rw [levelNamed, hFound]⟩
  · refine .inl ⟨hOther, ?_⟩
    have hNone : otherValues.lookup levelName.capital = none := by
      rw [List.lookup_eq_none_iff]
      intro named hMem
      exact bne_iff_ne.mpr fun hEq => hOther (List.mem_map.mpr ⟨named, hMem, hEq.symm⟩)
    rw [levelNamed, lookup_namedValues, hNone, standardLevel]
    cases standardLevels.lookup levelName.capital with
    | none => rfl
    | some n => rfl

theorem setUp_of_level {level : Int} (hLevel : levelNamed levelName = .ok level) :
    d.setUp levelName none host =
      (.ok (), { level, sinks := [.console d.consoles.length], consoles := d.consoles ++ [[]] },
        host) := by
  rw [setUp, hLevel]

theorem setUp_of_no_level {e : Failure} (hLevel : levelNamed levelName = .error e)
    (file : Option FilePath) :
    d.setUp levelName file host = (.error e, { d with consoles := d.consoles ++ [[]] }, host) := by
  rw [setUp, hLevel]

/-- A set-up without a file takes every name but two, and its level is the one that the name names,
or that of information. Under these two it fails, and the level stays the one of the set-up before,
as do the sinks. -/
theorem level_falls_back_iff (levelName : Text) (d : Diagnostics) (host : Host) :
    let (result, after, later) := d.setUp levelName none host
    (result = .ok () ∧ after.level = standardLevel levelName ↔
      levelName.capital ≠ "BASIC_FORMAT" ∧ levelName.capital ≠ "_STYLES") ∧
    (result = .ok () → after.sinks = [.console d.consoles.length]) ∧
    (result ≠ .ok () → after.level = d.level ∧ after.sinks = d.sinks) ∧
    after.consoles = d.consoles ++ [[]] ∧ later = host := by
  rcases levelNamed_cases levelName with ⟨hOther, hLevel⟩ | ⟨hFormat, hLevel⟩ | ⟨hStyles, hLevel⟩
  · rw [setUp_of_level hLevel]
    have hNeither : levelName.capital ≠ "BASIC_FORMAT" ∧ levelName.capital ≠ "_STYLES" := by
      simpa [otherValues] using hOther
    exact ⟨⟨fun _ => hNeither, fun _ => ⟨rfl, rfl⟩⟩, fun _ => rfl, fun h => absurd rfl h, rfl, rfl⟩
  · rw [setUp_of_no_level hLevel]
    exact ⟨⟨nofun, fun h => absurd hFormat h.1⟩, nofun, fun _ => ⟨rfl, rfl⟩, rfl, rfl⟩
  · rw [setUp_of_no_level hLevel]
    exact ⟨⟨nofun, fun h => absurd hStyles h.2⟩, nofun, fun _ => ⟨rfl, rfl⟩, rfl, rfl⟩

/-- The name of a format is no level, and yet it does not fall back to information. -/
theorem level_not_set_by_format_name :
    standardLevel "basic_format" = 20 ∧
      let (result, after, _) := Diagnostics.initial.setUp "basic_format" none
        (.sample [])
      result = .error (.unknownLevel lineFormat) ∧ after.level = 30 ∧ after.sinks = [] := by
  refine ⟨by decide +kernel, ?_⟩
  have hLevel : levelNamed "basic_format" = .error (.unknownLevel lineFormat) := by rfl
  rw [setUp_of_no_level hLevel]
  exact ⟨rfl, rfl, rfl⟩

end Switchboard.Diagnostics
