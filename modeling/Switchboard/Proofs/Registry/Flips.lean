import Mathlib.Data.List.Destutter
import Switchboard.Proofs.Registry.Hearing

/-!
# The flips of a switch

A recorder that is connected ahead of all other listeners hears of each change before anybody can
answer it. So what it hears of one switch are the flips of that switch: the positions assigned to it
in turn, without those that repeat the position before them.
-/

namespace Switchboard.Registry

open RecordFile (also)
open WriteQueue (wantedAfter)

/-- The positions to which some assignments bring a switch in turn. -/
def positionsOf (id : Text) (requests : List SaveRequest) : List Bool :=
  requests.filterMap fun request => if request.id = id then request.value.toBool? else none

def assignedSince (r later : Registry) : List SaveRequest :=
  later.assigned.drop r.assigned.length

variable {id tag : Text} {old b : Bool} {r later : Registry} {host : Host}
  {position : Text → Option Json} {others : List Listener} {s : Registry × Host}

/-! ## Flips among assignments -/

theorem positionsOf_cons_self (id : Text) (b : Bool) (rest : List SaveRequest) :
    positionsOf id (⟨id, .bool b⟩ :: rest) = b :: positionsOf id rest :=
  List.filterMap_cons_some (by rw [if_pos rfl]; rfl)

theorem positionsOf_cons_other {request : SaveRequest} (h : request.id ≠ id)
    (rest : List SaveRequest) : positionsOf id (request :: rest) = positionsOf id rest :=
  List.filterMap_cons_none (if_neg h)

/-- The changes of a switch are its flips, and the last one has brought it where it is. -/
theorem positionsOf_changes {made : List SaveRequest} (h : position id = some (.bool old))
    (hBool : ∀ request ∈ made, request.value.isBool = true) :
    old :: positionsOf id (changes position made) = (positionsOf id made).destutter' (· ≠ ·) old ∧
      wantedAfter made position id =
        some (.bool ((positionsOf id (changes position made)).getLastD old)) := by
  -- over the assignments; the position before each of them is another one
  induction made generalizing position old with
  | nil => exact ⟨rfl, h⟩
  | cons request rest ih =>
    obtain ⟨hRequest, hRest⟩ := List.forall_mem_cons.mp hBool
    obtain ⟨other, value⟩ := request
    obtain ⟨b, rfl⟩ : ∃ b, value = .bool b := (Json.isBool_iff _).mp hRequest
    change _ ∧ wantedAfter rest (also other (.bool b) position) id = _
    by_cases hSame : other = id
    · subst hSame
      have hThen : also other (.bool b) position other = some (.bool b) := if_pos rfl
      have hStays : stays position ⟨other, .bool b⟩ = (old == b) := by simp [stays, h]
      obtain ⟨hFlips, hLast⟩ := ih hThen hRest
      rw [changes, hStays, positionsOf_cons_self]
      by_cases hMoves : old = b
      · subst hMoves
        rw [if_pos (beq_self_eq_true old), List.destutter'_cons_neg _ (not_not_intro rfl)]
        exact ⟨hFlips, hLast⟩
      · rw [if_neg (by simpa using hMoves), List.destutter'_cons_pos _ hMoves,
          positionsOf_cons_self, ← hFlips, List.getLastD_cons]
        exact ⟨rfl, hLast⟩
    · have hThen : also other (.bool b) position id = some (.bool old) :=
        (if_neg (Ne.symm hSame)).trans h
      obtain ⟨hFlips, hLast⟩ := ih hThen hRest
      rw [changes, positionsOf_cons_other hSame]
      split
      · exact ⟨hFlips, hLast⟩
      · rw [positionsOf_cons_other hSame]
        exact ⟨hFlips, hLast⟩

theorem destutter'_eq_singleton_iff (old : Bool) (made : List Bool) :
    made.destutter' (· ≠ ·) old = [old] ↔ ∀ b ∈ made, b = old := by
  induction made with
  | nil => simp
  | cons b rest ih =>
    by_cases hMoves : old = b
    · subst hMoves
      rw [List.destutter'_cons_neg _ (not_not_intro rfl), ih, List.forall_mem_cons]
      exact (and_iff_right rfl).symm
    · rw [List.destutter'_cons_pos _ hMoves, List.forall_mem_cons]
      constructor
      · intro hEq
        exact absurd (List.cons.inj hEq).2 (List.destutter'_ne_nil _ _)
      · rintro ⟨hSame, _⟩
        exact absurd hSame.symm hMoves

theorem get_eq_ok_iff (r : Registry) (id : Text) (value : Json) :
    r.get id = .ok value ↔ r.position? id = some value := by
  rw [get_eq]
  cases r.position? id with
  | none => simp
  | some old => simp

/-! ## Stretches that a recorder ahead of all others hears -/

theorem everySet_true (set : Setter) (reaction : Reaction) (r : Registry) (host : Host) :
    everySet set (fun _ _ _ _ => true) reaction r host = true := by
  induction reaction generalizing r host with
  | finish => rfl
  | fail e => rfl
  | set id value next ih => exact ih _ _ _ _ _

theorem everyAnswer_true (set : Setter) (id : Text) (b : Bool) (listeners : List Listener)
    (r : Registry) (host : Host) :
    everyAnswer set (fun _ _ _ _ => true) id b listeners r host = true := by
  induction listeners generalizing r host with
  | nil => rfl
  | cons listener rest ih =>
    rw [everyAnswer, everySet_true, Bool.true_and]
    exact ih _ _

/-- Ahead of all others, a recorder hears of changes in their order, however cascades end. -/
theorem keeps_ahead (signal : Signal) (hTag : .recorder tag ∉ others) (limit : Nat) :
    Keeps Eq tag signal (.recorder tag :: others) (fun _ _ _ _ => true) (setWithin limit) := by
  induction limit with
  | zero => exact fun id value r host _ _ _ => .refl comparison_eq tag r
  | succ limit ih =>
    intro id value r host hSignal hListeners _
    have hOnce : .recorder tag ∉ [] ++ others := hTag
    refine Keeps.setWith comparison_eq (.inl rfl) hOnce ih hSignal hListeners ?_ ?_
    · exact fun b told later _ => everyAnswer_true _ id b _ told later
    · intro b told later _ _ hAhead
      have hHeard := hAhead.compare
      have hNone : changesSince told told = [] := by
        rw [changesSince, List.drop_length]
        rfl
      change heardSince tag told told ++ _ = _ :: changesSince told told
      rw [show heardSince tag told told = changesSince told told from hHeard, hNone]
      rfl

theorem stretch_overQueue (act : WriteQueue → Host → WriteQueue × Host) (r : Registry)
    (host : Host) : Stretch Eq tag r (r.overQueue act host).1 := by
  rw [overQueue]
  split
  · exact .refl comparison_eq tag r
  · exact ⟨rfl, rfl, [], (List.append_nil _).symm, by simp, rfl, [], (List.append_nil _).symm, rfl⟩

theorem stretch_effect (hTag : .recorder tag ∉ others)
    (hListeners : s.1.listeners = .recorder tag :: others) (limit : Nat) (act : Act)
    (hAct : ∀ listener, act ≠ .connect listener) : Stretch Eq tag s.1 (act.effect limit s).1 := by
  cases act with
  | set id value => exact keeps_ahead _ hTag limit id value s.1 s.2 rfl hListeners rfl
  | connect listener => exact absurd rfl (hAct listener)
  | take => exact stretch_overQueue _ s.1 s.2
  | finish => exact stretch_overQueue _ s.1 s.2
  | flush => exact stretch_overQueue _ s.1 s.2
  | close => exact stretch_overQueue _ s.1 s.2
  | outside host => exact .refl comparison_eq tag s.1

theorem stretch_run (hTag : .recorder tag ∉ others)
    (hListeners : s.1.listeners = .recorder tag :: others) (limit : Nat) (acts : List Act)
    (hActs : ∀ listener, .connect listener ∉ acts) : Stretch Eq tag s.1 (run limit acts s).1 := by
  -- over the acts; stretches of a run are put together at the positions between them
  induction acts generalizing s with
  | nil => exact .refl comparison_eq tag s.1
  | cons act rest ih =>
    have hFirst := stretch_effect hTag hListeners limit act fun listener hEq =>
      hActs listener (hEq ▸ List.mem_cons_self)
    have hRest := ih (hFirst.listeners.trans hListeners) fun listener hMem =>
      hActs listener (List.mem_cons_of_mem _ hMem)
    exact hFirst.trans comparison_eq hRest

/-- What is heard of a switch in a stretch are its flips, and the last one has brought it where it
is. -/
theorem Stretch.flips (h : Stretch Eq tag r later) (hOld : r.get id = .ok (.bool old)) :
    old :: positionsOf id (heardSince tag r later) =
        (positionsOf id (assignedSince r later)).destutter' (· ≠ ·) old ∧
      later.get id = .ok (.bool ((positionsOf id (heardSince tag r later)).getLastD old)) := by
  have hHeard := h.compare
  obtain ⟨_, _, made, hAssigned, hBool, hPosition, _⟩ := h
  rw [hHeard, changesSince, assignedSince, hAssigned, List.drop_left, get_eq_ok_iff, hPosition]
  exact positionsOf_changes ((get_eq_ok_iff r id _).mp hOld) hBool

/-! ## Whole runs -/

theorem run_append (limit : Nat) (ahead behind : List Act) (s : Registry × Host) :
    run limit (ahead ++ behind) s = run limit behind (run limit ahead s) :=
  List.foldl_append

/-- What a recorder that is connected first hears of a switch in a run are the flips of the switch:
they alternate, they start with the opposite of the position before the run, and the last one is the
position after it. Nothing is heard exactly where no other position was assigned, whatever becomes
of failures of other listeners. Sets that are rejected contribute nothing to the run. -/
theorem heard_changes_are_flips (limit : Nat) (tag : Text) (others : List Listener) (r : Registry)
    (host : Host) (acts : List Act) (hListeners : r.listeners = .recorder tag :: others)
    (hTag : .recorder tag ∉ others) (hActs : ∀ listener, .connect listener ∉ acts) :
    let later := (run limit acts (r, host)).1
    (∀ id old, r.get id = .ok (.bool old) →
      let heard := positionsOf id (heardSince tag r later)
      let assigned := positionsOf id (assignedSince r later)
      heard.IsChain (· ≠ ·) ∧
      (∀ b, heard.head? = some b → b = !old) ∧
      later.get id = .ok (.bool (heard.getLastD old)) ∧
      (heard = [] ↔ ∀ b ∈ assigned, b = old) ∧
      old :: heard = assigned.destutter' (· ≠ ·) old) ∧
    ∀ ahead id value behind, acts = ahead ++ .set id value :: behind →
      let before := run limit ahead (r, host)
      (id ∉ before.1.ids ∨ value.isBool = false ∨ r.signal.Contains ∧
        ∃ e, (setWithin limit id value before.1 before.2).1 = .error e) →
      run limit acts (r, host) = run limit (ahead ++ behind) (r, host) := by
  intro later
  have hStretch : Stretch Eq tag r later :=
    stretch_run (s := (r, host)) hTag hListeners limit acts hActs
  refine ⟨?_, ?_⟩
  · intro id old hOld heard assigned
    obtain ⟨hFlips, hLast⟩ := hStretch.flips hOld
    have hChain : (old :: heard).IsChain (· ≠ ·) := by
      rw [hFlips]
      exact List.isChain_destutter' _ _ _
    refine ⟨hChain.tail, ?_, hLast, ?_, hFlips⟩
    · intro b hFirst
      obtain ⟨rest, hHeard⟩ := List.head?_eq_some_iff.mp hFirst
      rw [hHeard, List.isChain_cons_cons] at hChain
      exact Bool.eq_not_of_ne hChain.1.symm
    · rw [← destutter'_eq_singleton_iff, ← hFlips, List.cons.injEq]
      exact (and_iff_right rfl).symm
  · rintro ahead id value behind rfl before hRejected
    rw [run_append, run_append]
    refine congrArg (run limit behind) ?_
    rcases hRejected with hUnknown | hOther | ⟨hContains, e, hError⟩
    · exact setWithin_of_rejected limit (.inl hUnknown) before.2
    · exact setWithin_of_rejected limit (.inr hOther) before.2
    · exact setWithin_error ((signal_run limit ahead (r, host)).symm ▸ hContains) hError

/-- Behind the recorder one listener switches logging on and fails, which comes back, and another
one switches it off again. -/
def flickering : Registry where
  settings := Descriptor.table.map fun d => ⟨d, d.default⟩
  signal := passing
  listeners := [.recorder "seen", .program meddle, switchBack, .recorder "late"]

def flickeringActs : List Act :=
  [.set Descriptor.mouseEnabled true, .set "no_such_switch" true,
    .set Descriptor.mouseEnabled (.int 0), .set Descriptor.mouseEnabled true, .flush,
    .set Descriptor.mouseEnabled false, .set Descriptor.mouseEnabled true]

/-- Logging goes on and off twice, and a set that is rejected could as well not have been made. -/
theorem heard_changes_are_flips_when_flickering :
    flickering.listeners = .recorder "seen" :: [.program meddle, switchBack, .recorder "late"] ∧
      .recorder "seen" ∉ [.program meddle, switchBack, .recorder "late"] ∧
      (∀ listener, .connect listener ∉ flickeringActs) ∧
      let later := (run cascadeLimit flickeringActs (flickering, .sample [])).1
      positionsOf Descriptor.loggingEnabled (heardSince "seen" flickering later) =
        [true, false, true, false] ∧
      later.get Descriptor.loggingEnabled = .ok false ∧
      run cascadeLimit flickeringActs (flickering, .sample []) =
        run cascadeLimit (flickeringActs.eraseIdx 2) (flickering, .sample []) := by
  have hTag : .recorder "seen" ∉ [.program meddle, switchBack, .recorder "late"] := by
    have hOther : Text.ofString "seen" ≠ "late" := by decide
    simpa [switchBack] using hOther
  have hActs : ∀ listener, .connect listener ∉ flickeringActs := by simp [flickeringActs]
  obtain ⟨hFlips, hRejected⟩ :=
    heard_changes_are_flips cascadeLimit "seen" _ flickering (.sample []) flickeringActs rfl hTag
      hActs
  obtain ⟨_, _, hLast, _⟩ := hFlips Descriptor.loggingEnabled false rfl
  have hHeard : positionsOf Descriptor.loggingEnabled
      (heardSince "seen" flickering (run cascadeLimit flickeringActs (flickering, .sample [])).1) =
        [true, false, true, false] := by decide +kernel
  rw [hHeard] at hLast
  exact ⟨rfl, hTag, hActs, hHeard, hLast,
    hRejected (flickeringActs.take 2) _ _ (flickeringActs.drop 3) rfl (.inr (.inl rfl))⟩

end Switchboard.Registry
