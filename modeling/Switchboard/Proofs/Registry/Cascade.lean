import Switchboard.Proofs.Registry
import Switchboard.Proofs.WriteQueue.Ledger

/-!
# Cascades

A listener that hears of a change may set switches itself, and the listeners that hear of those
changes may do so again. Whatever the listeners do, the registry goes through no other steps than
assigning and submitting a position, noting a change, and recording that it was heard. What these
steps keep is kept by every cascade and by every set command, for one registry as for two that go
side by side. It follows that the saves of a registry are its assignments in their order.
-/

namespace Switchboard.Registry

/-- A relation of two registries on their hosts that holds at every moment of a cascade which runs
on both. -/
structure Steady (R : Registry × Host → Registry × Host → Prop) : Prop where
  settings : ∀ {s t}, R s t → s.1.settings = t.1.settings
  signal : ∀ {s t}, R s t → s.1.signal = t.1.signal
  listeners : ∀ {s t}, R s t → s.1.listeners = t.1.listeners
  heard : ∀ {s t}, R s t → s.1.heard = t.1.heard
  hear : ∀ {s t} (change : Heard), R s t →
    R ({ s.1 with heard := s.1.heard ++ [change] }, s.2)
      ({ t.1 with heard := t.1.heard ++ [change] }, t.2)
  note : ∀ {s t} (d : Descriptor) (value : Bool), R s t →
    R (s.1, noteChange d value s.2) (t.1, noteChange d value t.2)
  submit : ∀ {s t} (id : Text) (value : Bool), (s.1.setting? id).isSome = true → R s t →
    R ((s.1.assign id value).submit id value s.2) ((t.1.assign id value).submit id value t.2)

/-- Setting a switch in the given way ends alike on both sides and keeps the relation. -/
def Respects (R : Registry × Host → Registry × Host → Prop) (set : Setter) : Prop :=
  ∀ {s t} (id : Text) (value : Json), R s t →
    (set id value s.1 s.2).1 = (set id value t.1 t.2).1 ∧
      R (set id value s.1 s.2).2 (set id value t.1 t.2).2

variable {R : Registry × Host → Registry × Host → Prop} {nested : Setter}
  {s t : Registry × Host}

theorem Steady.perform (hSteady : Steady R) (hNested : Respects R nested) (reaction : Reaction)
    (h : R s t) :
    (perform nested reaction s.1 s.2).1 = (perform nested reaction t.1 t.2).1 ∧
      R (perform nested reaction s.1 s.2).2 (perform nested reaction t.1 t.2).2 := by
  induction reaction generalizing s t with
  | finish => exact ⟨rfl, h⟩
  | fail e => exact ⟨rfl, h⟩
  | set id value next ih =>
    obtain ⟨hResult, hAfter⟩ := hNested id value h
    rw [Registry.perform, Registry.perform]
    dsimp only
    rw [← hResult, ← hSteady.settings hAfter, ← hSteady.heard hAfter]
    exact ih _ _ _ hAfter

theorem Steady.answer (hSteady : Steady R) (hNested : Respects R nested) (id : Text)
    (value : Bool) (listener : Listener) (h : R s t) :
    (answer nested id value listener s.1 s.2).1 = (answer nested id value listener t.1 t.2).1 ∧
      R (answer nested id value listener s.1 s.2).2 (answer nested id value listener t.1 t.2).2 := by
  cases listener with
  | recorder tag => exact ⟨rfl, hSteady.hear ⟨tag, id, value⟩ h⟩
  | rule whenId whenValue thenId thenValue =>
    rw [Registry.answer, Registry.answer]
    split
    · exact hNested thenId thenValue h
    · exact ⟨rfl, h⟩
  | program react =>
    rw [Registry.answer, Registry.answer]
    rw [← hSteady.settings h, ← hSteady.heard h]
    exact hSteady.perform hNested _ h

theorem Steady.announce (hSteady : Steady R) (hNested : Respects R nested) (signal : Signal)
    (id : Text) (value : Bool) (listeners : List Listener) (h : R s t) :
    (announce signal nested id value listeners s.1 s.2).1 =
        (announce signal nested id value listeners t.1 t.2).1 ∧
      R (announce signal nested id value listeners s.1 s.2).2
        (announce signal nested id value listeners t.1 t.2).2 := by
  -- over the listeners still to hear of the change; the registry is another one after each of them
  induction listeners generalizing s t with
  | nil => exact ⟨rfl, h⟩
  | cons listener rest ih =>
    obtain ⟨hResult, hAfter⟩ := hSteady.answer hNested id value listener h
    rw [Registry.announce, Registry.announce]
    generalize Registry.answer nested id value listener s.1 s.2 = first at hResult hAfter ⊢
    generalize Registry.answer nested id value listener t.1 t.2 = second at hResult hAfter ⊢
    obtain ⟨result, after⟩ := first
    obtain ⟨other, later⟩ := second
    obtain rfl : result = other := hResult
    cases result with
    | ok _ => exact ih hAfter
    | error e =>
      dsimp only
      split
      · exact ⟨rfl, hAfter⟩
      · exact ih hAfter

theorem Steady.setWith (hSteady : Steady R) (hNested : Respects R nested) :
    Respects R (setWith nested) := by
  intro s t id value h
  have hSetting : s.1.setting? id = t.1.setting? id := by
    rw [setting?, setting?, hSteady.settings h]
  unfold Registry.setWith
  rw [← hSetting]
  cases hFound : s.1.setting? id with
  | none => exact ⟨rfl, h⟩
  | some setting =>
    cases value with
    | bool b =>
      have hSubmitted := hSteady.submit id b (Option.isSome_iff_exists.mpr ⟨_, hFound⟩) h
      dsimp only
      split
      · exact ⟨rfl, hSubmitted⟩
      · rw [hSteady.signal hSubmitted, hSteady.listeners hSubmitted]
        exact hSteady.announce hNested _ id b _ (hSteady.note setting.descriptor b hSubmitted)
    | _ => exact ⟨rfl, h⟩

theorem Steady.setWithin (hSteady : Steady R) (limit : Nat) : Respects R (setWithin limit) := by
  -- over the depth that is left to announcements, since each nested set has one less
  induction limit with
  | zero => exact fun _ _ h => ⟨rfl, h⟩
  | succ limit ih => exact hSteady.setWith ih

/-- A property of one registry that no step of a cascade breaks relates the registry to itself. -/
theorem steady_self {P : Registry × Host → Prop}
    (hHear : ∀ s change, P s → P ({ s.1 with heard := s.1.heard ++ [change] }, s.2))
    (hNote : ∀ s log, P s → P (s.1, { s.2 with log }))
    (hSubmit : ∀ s id b, (s.1.setting? id).isSome = true → P s →
      P ((s.1.assign id b).submit id b s.2)) :
    Steady fun s t => s = t ∧ P s := by
  constructor
  · rintro s _ ⟨rfl, _⟩
    rfl
  · rintro s _ ⟨rfl, _⟩
    rfl
  · rintro s _ ⟨rfl, _⟩
    rfl
  · rintro s _ ⟨rfl, _⟩
    rfl
  · rintro s _ change ⟨rfl, h⟩
    exact ⟨rfl, hHear s change h⟩
  · rintro s _ d b ⟨rfl, h⟩
    obtain ⟨log, hNoted⟩ := noteChange_eq d b s.2
    rw [hNoted]
    exact ⟨rfl, hNote s log h⟩
  · rintro s _ id b hKnown ⟨rfl, h⟩
    exact ⟨rfl, hSubmit s id b hKnown h⟩

end Switchboard.Registry

namespace Switchboard.SetCommand

open Registry (Steady)

variable {R : Registry × Host → Registry × Host → Prop} {s t : Registry × Host}

theorem toggle_steady (hSteady : Steady R) (h : R s t) (id token : Text) :
    (toggle id token s.1 s.2).1 = (toggle id token t.1 t.2).1 ∧
      R (toggle id token s.1 s.2).2 (toggle id token t.1 t.2).2 := by
  have hDescriptor : s.1.descriptor id = t.1.descriptor id := by
    rw [Registry.descriptor, Registry.descriptor, Registry.setting?, Registry.setting?,
      hSteady.settings h]
  rw [toggle, toggle, ← hDescriptor]
  split
  · exact ⟨rfl, h⟩
  · rename_i on _
    split
    · exact ⟨rfl, h⟩
    · obtain ⟨hResult, hAfter⟩ := hSteady.setWithin Registry.cascadeLimit id (.bool on) h
      change (s.1.set id (.bool on) s.2).1 = (t.1.set id (.bool on) t.2).1 at hResult
      change R (s.1.set id (.bool on) s.2).2 (t.1.set id (.bool on) t.2).2 at hAfter
      generalize s.1.set id (.bool on) s.2 = first at hResult hAfter ⊢
      generalize t.1.set id (.bool on) t.2 = second at hResult hAfter ⊢
      obtain ⟨result, after⟩ := first
      obtain ⟨other, later⟩ := second
      obtain rfl : result = other := hResult
      cases result with
      | ok _ => exact ⟨rfl, hAfter⟩
      | error e =>
        cases e with
        | unknownSetting _ => exact ⟨rfl, hAfter⟩
        | _ => exact ⟨rfl, hAfter⟩

theorem run_steady (hSteady : Steady R) (h : R s t) (args : List Text) :
    (run args s.1 s.2).1 = (run args t.1 t.2).1 ∧
      R (run args s.1 s.2).2 (run args t.1 t.2).2 := by
  unfold run
  split
  · refine ⟨?_, h⟩
    rw [listAll, listAll, hSteady.settings h]
  · refine ⟨?_, h⟩
    rw [showOne, showOne, Registry.setting?, Registry.setting?, hSteady.settings h]
  · exact toggle_steady hSteady h _ _
  · exact ⟨rfl, h⟩

theorem execute_steady (hSteady : Steady R) (h : R s t) (line : Text) :
    (execute line s.1 s.2).1 = (execute line t.1 t.2).1 ∧
      R (execute line s.1 s.2).2 (execute line t.1 t.2).2 := by
  rw [execute, execute]
  split
  · obtain ⟨hResult, hAfter⟩ := run_steady hSteady h line.words.tail
    generalize run line.words.tail s.1 s.2 = first at hResult hAfter ⊢
    generalize run line.words.tail t.1 t.2 = second at hResult hAfter ⊢
    obtain ⟨result, after⟩ := first
    obtain ⟨other, later⟩ := second
    obtain rfl : result = other := hResult
    cases result with
    | ok reply => exact ⟨rfl, hAfter⟩
    | error e => exact ⟨rfl, hAfter⟩
  · exact ⟨rfl, h⟩

end Switchboard.SetCommand
